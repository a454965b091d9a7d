import ScriptCore.Proofs.Rendezvous.StopTheWorld

/-!
# Every root has somebody who answers for it

Threads register roots for their stacks, for joins in progress and for what an isolate carries, the
host registers some of its own, and one root is that of the global names. No root is left behind and
none is lost.

* `Thread.Apt`: a thread that is about to get a machine has none;
* `World.Keeper`: what a thread can rely on before its step;
* `World.Tally`: a step moves the registry by as much as it moves the roots of its thread;
* `World.Tally.step`: every step does;
* `World.Accounted`: the registry holds the roots of all threads, what isolates carry holds their
  futures, and the live isolates are counted;
* `Run.accounted`: in every state of every run.
-/

namespace ScriptCore

/-- The isolate is not gone. -/
def Thread.active (th : Thread) : Bool :=
  match th.role with
  | .host => false
  | .isolate _ => decide (th.control ≠ .gone)

/-- A thread that is about to get a machine has none, and only threads of the host resolve futures
at given times. -/
def Thread.Apt (th : Thread) : Prop :=
  match th.control with
  | .enrolling => th.role ≠ .host → th.root = none
  | .equipping => th.root = none
  | .resolving _ => th.role = .host
  | _ => True

/-- A thread has moved where it answers for the same roots. -/
structure Thread.Akin (th th' : Thread) : Prop where
  role : th'.role = th.role
  root : th'.root = th.root
  joined : th'.control.joined = th.control.joined
  released : th.role ≠ .host → th'.control.released = th.control.released
  gone : th.role ≠ .host → (th'.control = .gone ↔ th.control = .gone)

namespace Thread.Akin

variable {th th' : Thread}

/-- The control of a thread has moved where it counts for the same. -/
theorem of_control (hrole : th'.role = th.role) (hroot : th'.root = th.root)
    (hcontrol : (th'.control.joined, th'.control.released, decide (th'.control = .gone)) =
      (th.control.joined, th.control.released, decide (th.control = .gone))) : th.Akin th' := by
  simp only [Prod.mk.injEq, decide_eq_decide] at hcontrol
  exact ⟨hrole, hroot, hcontrol.1, fun _ => hcontrol.2.1, fun _ => hcontrol.2.2⟩

theorem carried (h : th.Akin th') : th'.carried = th.carried := by
  unfold Thread.carried
  rw [h.role]
  cases hrole : th.role with
  | host => rfl
  | isolate i => rw [h.released (by simp [hrole])]

theorem rootIds (h : th.Akin th') : th'.rootIds = th.rootIds := by
  rw [Thread.rootIds, Thread.rootIds, h.root, h.joined, h.carried]

theorem active (h : th.Akin th') : th'.active = th.active := by
  unfold Thread.active
  rw [h.role]
  cases hrole : th.role with
  | host => rfl
  | isolate i => exact decide_eq_decide.2 (not_congr (h.gone (by simp [hrole])))

end Thread.Akin

theorem After.Rejoining.joined {registered : Bool} {k : After} (hk : k.Rejoining registered) :
    k.joined = [] := by
  cases k with
  | join => exact hk.elim
  | _ => rfl

theorem Control.released_lingering (k : After) :
    (Control.lingering k).released = decide (k = .retire) := by
  cases k <;> simp [Control.released]

/-- A thread at work comes to rest at a place of its own. -/
theorem Leads.unreleased {G : Outcome → Store → Prop} {me : Caller} {role : Role} {p : Pending}
    {x y : Vm × Store} {c : Control} (h : Leads G me role p x y c) :
    c.released = false ∧ c ≠ .gone ∧ c ≠ .enrolling ∧ c ≠ .equipping ∧ ∀ a, c ≠ .resolving a := by
  induction h with
  | @next _ _ outermost | @failed _ _ _ outermost =>
    cases outermost <;> cases role <;> simp [Role.entered, Role.ended, Control.released]
  | panicked | hostPanics => cases role <;> simp [Role.interrupted, Control.released]
  | receives _ _ _ ih => exact ih
  | _ => simp [Control.released]

theorem Thread.apt_of_ne {th : Thread} (h : th.control ≠ .enrolling) (h' : th.control ≠ .equipping)
    (h'' : ∀ a, th.control ≠ .resolving a) : th.Apt := by
  unfold Thread.Apt
  split
  · exact absurd ‹_› h
  · exact absurd ‹_› h'
  · exact absurd ‹_› (h'' _)
  · trivial

namespace World

variable {G : Outcome → Store → Prop} {t u : ThreadId} {w w₁ w' : World}

/-- What a thread can rely on before its step. -/
structure Keeper (t : ThreadId) (w : World) : Prop where
  known : t < w.threads.size
  drawn : w.Drawn
  registered : ∀ id, (w.thread t).rootIds.count id ≤ w.rootIds.count id
  apt : (w.thread t).Apt
  counted : (w.thread t).active = true → 0 < w.store.live

/-- The registry moves by as much as the roots of thread `t`, and so does the number of live
isolates. Roots that others answer for stay as they are, and so does what an isolate carries. -/
structure Tally (t : ThreadId) (w w' : World) : Prop where
  role : (w'.thread t).role = (w.thread t).role
  carried : ∀ id ∈ (w'.thread t).carried, id ∈ (w.thread t).carried
  kept : ∀ r ∈ w.store.collector.roots,
    (r.1 ∈ (w.thread t).rootIds → r.1 ∈ (w'.thread t).carried) → r ∈ w'.store.collector.roots
  count : ∀ id, w'.rootIds.count id + (w.thread t).rootIds.count id =
    w.rootIds.count id + (w'.thread t).rootIds.count id + (brought w w').count id
  live : w'.store.live + (w.thread t).active.toNat + w.threads.size =
    w.store.live + (w'.thread t).active.toNat + w'.threads.size
  apt : (w'.thread t).Apt

namespace Keeper

/-- A change of the store that leaves the registry alone. -/
theorem before (h : Keeper t w) (hthreads : w₁.threads = w.threads)
    (hroots : w₁.store.collector.roots = w.store.collector.roots)
    (hnext : w₁.store.collector.nextId = w.store.collector.nextId)
    (hlive : w₁.store.live = w.store.live) : Keeper t w₁ := by
  have hids : w₁.rootIds = w.rootIds := congrArg (List.map Prod.fst) hroots
  have hthread := thread_congr hthreads t
  refine ⟨hthreads ▸ h.known, ⟨hids ▸ h.drawn.nodup, hids ▸ hnext ▸ h.drawn.lt⟩, ?_,
    hthread ▸ h.apt, ?_⟩
  · rw [hthread, hids]
    exact h.registered
  · rw [hthread, hlive]
    exact h.counted

/-- Nobody answers twice for a root. -/
theorem count_le_one (h : Keeper t w) (id : RootId) : (w.thread t).rootIds.count id ≤ 1 :=
  (h.registered id).trans (List.nodup_iff_count_le_one.1 h.drawn.nodup id)

theorem count_eq_one (h : Keeper t w) {id : RootId} (hid : id ∈ (w.thread t).rootIds) :
    w.rootIds.count id = 1 := by
  have hpos := List.count_pos_iff.2 hid
  have hle := h.registered id
  have hone := List.nodup_iff_count_le_one.1 h.drawn.nodup id
  omega

end Keeper

namespace Tally

theorem before (h : Tally t w₁ w') (hthreads : w₁.threads = w.threads)
    (hroots : w₁.store.collector.roots = w.store.collector.roots)
    (hlive : w₁.store.live = w.store.live) : Tally t w w' := by
  have hids : w₁.rootIds = w.rootIds := congrArg (List.map Prod.fst) hroots
  have hthread := thread_congr hthreads t
  have hbrought : brought w₁ w' = brought w w' := by rw [brought, brought, hthreads]
  have hkept := h.kept
  have hcount := h.count
  have hcounted := h.live
  rw [hthread, hroots] at hkept
  rw [hthread, hids, hbrought] at hcount
  rw [hthread, hlive, hthreads] at hcounted
  exact ⟨hthread ▸ h.role, hthread ▸ h.carried, hkept, hcount, hcounted, h.apt⟩

/-- A thread moves where it answers for the same roots. -/
theorem of_becomes {th : Thread} (h : Becomes t th w w') (hakin : (w.thread t).Akin th)
    (hroots : w'.store.collector.roots = w.store.collector.roots)
    (hlive : w'.store.live = w.store.live) (hapt : th.Apt) : Tally t w w' := by
  have hids : w'.rootIds = w.rootIds := congrArg (List.map Prod.fst) hroots
  refine ⟨by rw [h.mine, hakin.role], ?_, fun r hr _ => hroots ▸ hr, fun id => ?_, ?_,
    h.mine ▸ hapt⟩
  · rw [h.mine, hakin.carried]
    exact fun _ hid => hid
  · rw [h.mine, hakin.rootIds, hids, brought_of_size h.size]
    rfl
  · rw [h.mine, hakin.active, hlive, h.size]

theorem refl (hapt : (w.thread t).Apt) : Tally t w w :=
  of_becomes ⟨rfl, fun _ _ => rfl, rfl⟩ ⟨rfl, rfl, rfl, fun _ => rfl, fun _ => .rfl⟩ rfl rfl hapt

/-- A thread goes on with its machine or with a task. -/
theorem of_sequel {p : Pending} {vm : Vm} {held : List RootId} (h : Keeper t w)
    (hs : Sequel G t p vm held w w') (hheld : (w.control t).joined = held)
    (hreleased : (w.thread t).role ≠ .host → (w.control t).released = false) : Tally t w w' := by
  obtain ⟨vm', c, hmine, hleads⟩ := hs.mine
  obtain ⟨hfree, hgone, henrolling, hequipping, hresolving⟩ := hleads.unreleased
  have hcarried : (w'.thread t).carried = (w.thread t).carried := by
    rw [hmine]
    unfold Thread.carried
    cases hrole : (w.thread t).role with
    | host => rfl
    | isolate i =>
      have hbefore := hreleased (by simp [hrole])
      rw [control] at hbefore
      simp only [hfree, hbefore]
  have hactive : (w'.thread t).active = (w.thread t).active := by
    rw [hmine]
    unfold Thread.active
    cases hrole : (w.thread t).role with
    | host => rfl
    | isolate i =>
      have hbefore := hreleased (by simp [hrole])
      have hnot : (w.thread t).control ≠ .gone := by
        intro heq
        rw [control, heq] at hbefore
        cases hbefore
      simp [hgone, hnot]
  have hanswers : ∀ id, (w.thread t).rootIds.count id = (w.thread t).root.toList.count id +
      held.count id + (w.thread t).carried.count id := fun id => by
    rw [Thread.rootIds, List.count_append, List.count_append, ← hheld, control]
  have hanswers' : ∀ id, (w'.thread t).rootIds.count id = (w.thread t).root.toList.count id +
      (w'.control t).joined.count id + (w.thread t).carried.count id := fun id => by
    have hroot : (w'.thread t).root = (w.thread t).root := by rw [hmine]
    rw [Thread.rootIds, List.count_append, List.count_append, hroot, hcarried, control]
  refine ⟨by rw [hmine], fun id hid => hcarried ▸ hid, fun r hr hstays => ?_, fun id => ?_, ?_,
    ?_⟩
  · refine hs.kept h.drawn r hr fun hmem => ?_
    -- a root of the join is not what the isolate carries
    have hin : r.1 ∈ (w.thread t).rootIds :=
      List.mem_append_left _ (List.mem_append_right _ (by rwa [← hheld] at hmem))
    have hcount := hanswers r.1
    have hone := h.count_le_one r.1
    have hheld := List.count_pos_iff.2 hmem
    have hcarry := List.count_pos_iff.2 (hcarried ▸ hstays hin)
    omega
  · have hle : ∀ id, held.count id ≤ w.rootIds.count id := fun id => by
      have hregistered := h.registered id
      have hcount := hanswers id
      omega
    have htally := hs.tally h.drawn hle id
    rw [hanswers, hanswers']
    omega
  · have hlive := hs.live
    rw [hactive]
    omega
  · rw [hmine]
    exact Thread.apt_of_ne henrolling hequipping hresolving

/-- A thread moves where no join is in progress, after a change of what is shared. -/
theorem setControl (h : Keeper t w) (hthreads : w₁.threads = w.threads)
    (hroots : w₁.store.collector.roots = w.store.collector.roots)
    (hlive : w₁.store.live = w.store.live) {c : Control}
    (hjoined : c.joined = (w.control t).joined)
    (hrole : (w.thread t).role ≠ .host →
      c.released = (w.control t).released ∧ (c = .gone ↔ w.control t = .gone))
    (hapt : { w.thread t with control := c }.Apt) : Tally t w (w₁.setControl t c) :=
  of_becomes (becomes_setControl hthreads h.known c)
    ⟨rfl, rfl, hjoined, fun hne => (hrole hne).1, fun hne => (hrole hne).2⟩ hroots hlive hapt

theorem execute (h : Keeper t w) (hjoined : (w.control t).joined = [])
    (hreleased : (w.thread t).role ≠ .host → (w.control t).released = false) :
    Tally t w (w.execute t) := by
  have hrest := Sequel.execute (G := fun _ _ => True) h.known fun _ _ _ _ => trivial
  have hedit := (Vm.step_safe ((w.thread t).caller t) (w.thread t).vm w.store).edited
  have hquiet := Vm.quiet_step ((w.thread t).caller t) (w.thread t).vm w.store
  have hkeeper : Keeper t { w with store :=
      ((w.thread t).vm.step ((w.thread t).caller t) w.store).2.1 } :=
    h.before rfl hedit.roots hedit.nextId hquiet.live
  exact (of_sequel hkeeper hrest hjoined hreleased).before rfl hedit.roots hquiet.live

theorem enter (h : Keeper t w) (hjoined : (w.control t).joined = [])
    (hreleased : (w.thread t).role ≠ .host → (w.control t).released = false) (function : Value)
    (args : Array Value) : Tally t w (w.enter t function args) := by
  have hrest := Sequel.enter (G := fun _ _ => True) h.known function args fun _ _ _ _ => trivial
  have hedit := (Vm.enter_safe ((w.thread t).caller t) function args (w.thread t).vm w.store).edited
  have hquiet := Vm.quiet_enter ((w.thread t).caller t) function args (w.thread t).vm w.store
  have hkeeper : Keeper t { w with store :=
      ((w.thread t).vm.enter ((w.thread t).caller t) function args w.store).2.1 } :=
    h.before rfl hedit.roots hedit.nextId hquiet.live
  exact (of_sequel hkeeper hrest hjoined hreleased).before rfl hedit.roots hquiet.live

/-- A thread gets a machine. -/
theorem equip (h : Keeper t w) (hc : w.control t = .equipping) {c : Control}
    (hjoined : c.joined = []) (hreleased : c.released = false) (hgone : c ≠ .gone)
    (hapt : ∀ th : Thread, { th with control := c }.Apt) :
    Tally t w ((w.equip t).setControl t c) := by
  have hbecomes := (becomes_equip h.known).setControl h.known c
  have hmine := hbecomes.mine
  have hcontrol : (w.thread t).control = .equipping := hc
  have hroot : (w.thread t).root = none := by
    have hbare := h.apt
    unfold Thread.Apt at hbare
    rwa [hcontrol] at hbare
  have hcarried : (((w.equip t).setControl t c).thread t).carried = (w.thread t).carried := by
    rw [hmine]
    simp only [Thread.carried, hreleased, hcontrol]
    rfl
  have hactive : (((w.equip t).setControl t c).thread t).active = (w.thread t).active := by
    rw [hmine]
    simp only [Thread.active, hcontrol]
    simp [hgone]
  have hanswers : (w.thread t).rootIds = (w.thread t).carried := by
    rw [Thread.rootIds, hroot, hcontrol]
    rfl
  have hanswers' : (((w.equip t).setControl t c).thread t).rootIds =
      w.store.collector.nextId :: (w.thread t).carried := by
    rw [Thread.rootIds, hcarried, hmine]
    simp only [hjoined, Option.toList, List.append_nil, List.singleton_append]
  have hids : ((w.equip t).setControl t c).rootIds = w.store.collector.nextId :: w.rootIds := rfl
  refine ⟨by rw [hmine], fun id hid => hcarried ▸ hid, fun r hr _ => ?_, fun id => ?_, ?_, ?_⟩
  · exact List.mem_cons_of_mem (w.store.collector.nextId, Holder.stack t) hr
  · rw [brought_of_size hbecomes.size, hanswers, hanswers', hids, List.count_cons, List.count_cons,
      List.count_nil]
    omega
  · rw [hactive, hbecomes.size]
    rfl
  · rw [hmine]
    exact hapt _

/-- An isolate lets go of what it carried. -/
theorem release (h : Keeper t w) {i : Isolate} (hrole : (w.thread t).role = .isolate i)
    (hc : w.control t = .releasing) :
    Tally t w ((w.dropRoot i.transfer).setControl t .retiring) := by
  have hbecomes := becomes_setControl (threads_dropRoot w i.transfer) h.known .retiring
  have hcontrol : (w.thread t).control = .releasing := hc
  have hanswers : (w.thread t).rootIds = (w.thread t).root.toList ++ [] ++ [i.transfer] := by
    simp only [Thread.rootIds, Thread.carried, hrole, hcontrol]
    rfl
  have hanswers' : (((w.dropRoot i.transfer).setControl t .retiring).thread t).rootIds =
      (w.thread t).root.toList ++ [] ++ [] := by
    rw [hbecomes.mine]
    simp only [Thread.rootIds, Thread.carried, hrole]
    rfl
  have hids : ∀ id, ((w.dropRoot i.transfer).setControl t .retiring).rootIds.count id =
      if i.transfer = id then 0 else w.rootIds.count id := count_rootIds_dropRoot w i.transfer
  have hcarried : (((w.dropRoot i.transfer).setControl t .retiring).thread t).carried = [] := by
    rw [hbecomes.mine]
    simp only [Thread.carried, hrole]
    rfl
  refine ⟨by rw [hbecomes.mine], by simp [hcarried], fun r hr hstays => ?_, fun id => ?_, ?_, ?_⟩
  · refine (mem_roots_dropRoot w).2 ⟨hr, fun heq => ?_⟩
    have hmem := hstays (by rw [hanswers, heq]; simp)
    rw [hcarried] at hmem
    cases hmem
  · have hone : w.rootIds.count i.transfer = 1 := h.count_eq_one (by rw [hanswers]; simp)
    rw [hids, hanswers, hanswers', brought_of_size hbecomes.size]
    simp only [List.count_append, List.count_cons, List.count_nil, beq_iff_eq]
    split
    · rename_i heq
      rw [← heq, hone]
      omega
    · omega
  · have hactive : (((w.dropRoot i.transfer).setControl t .retiring).thread t).active =
        (w.thread t).active := by
      rw [hbecomes.mine]
      simp only [Thread.active, hrole, hcontrol]
      rfl
    have hlive : ((w.dropRoot i.transfer).setControl t .retiring).store.live = w.store.live :=
      (dropRoot_same w i.transfer).2.2.1
    rw [hactive, hbecomes.size, hlive]
  · rw [hbecomes.mine]
    trivial

/-- A thread takes its stack out of the roots; an isolate is gone then. -/
theorem unroot (h : Keeper t w) (hc : w.control t = .unrooting) : Tally t w (w.unroot t) := by
  have hbecomes := becomes_unroot h.known
  have hcontrol : (w.thread t).control = .unrooting := hc
  have hanswers : (w.thread t).rootIds = (w.thread t).root.toList := by
    simp only [Thread.rootIds, Thread.carried, hcontrol]
    cases (w.thread t).role <;> simp [Control.joined, Control.released]
  have hmine' : ((w.unroot t).thread t).rootIds = [] ∧ ((w.unroot t).thread t).carried = [] ∧
      ((w.unroot t).thread t).active = false ∧ ((w.unroot t).thread t).Apt := by
    rw [hbecomes.mine]
    simp only [Thread.rootIds, Thread.carried, Thread.active, Thread.Apt]
    cases (w.thread t).role <;> simp [farewell, Control.joined, Control.released]
  obtain ⟨hanswers', hcarried, hactive', hapt⟩ := hmine'
  have hactive : (w.thread t).active = true ↔ (w.thread t).role ≠ .host := by
    simp only [Thread.active, hcontrol]
    cases (w.thread t).role <;> simp
  refine ⟨by rw [hbecomes.mine], by simp [hcarried], fun r hr hstays => ?_, fun id => ?_, ?_,
    hapt⟩
  · rw [hcarried, hanswers] at hstays
    rw [unroot_eq]
    show r ∈ (w.uproot t).store.collector.roots
    unfold uproot
    split
    · rename_i id hroot
      refine (mem_roots_dropRoot w).2 ⟨hr, fun heq => ?_⟩
      exact absurd (hstays (by rw [hroot, heq]; simp)) List.not_mem_nil
    · exact hr
  · have hids : (w.unroot t).rootIds = (w.uproot t).rootIds := by
      rw [unroot_eq]
      rfl
    rw [hids, hanswers, hanswers', brought_of_size hbecomes.size]
    unfold uproot
    split
    · rename_i root hroot
      have hone : w.rootIds.count root = 1 := h.count_eq_one (by rw [hanswers, hroot]; simp)
      show (w.dropRoot root).rootIds.count id + _ = _
      rw [count_rootIds_dropRoot, hroot]
      simp only [Option.toList, List.count_cons, List.count_nil, beq_iff_eq]
      split
      · rename_i heq
        rw [← heq, hone]
      · omega
    · rename_i hroot
      rw [hroot]
      rfl
  · have hlive : (w.unroot t).store.live = (w.uproot t).remaining (w.thread t).role := by
      rw [unroot_eq]
      rfl
    rw [hlive, hactive', hbecomes.size]
    have hcounted := h.counted
    have hsame := (uproot_same w t).2.2
    cases hrole : (w.thread t).role with
    | host =>
      have hfalse : (w.thread t).active = false :=
        Bool.eq_false_iff.2 fun heq => hactive.1 heq hrole
      simp only [remaining, hsame, hfalse]
    | isolate i =>
      have htrue : (w.thread t).active = true := hactive.2 (by simp [hrole])
      have hpos := hcounted htrue
      simp only [remaining, hsame, htrue, Bool.toNat_true, Bool.toNat_false]
      omega

/-- A thread leaves the collector. -/
theorem leave {own : Ledger} {away : Option ThreadId} (h : Keeper t w)
    (hsound : w.Sound own away) (hjoined : (w.control t).joined = [])
    (hreleased : (w.control t).released = true) (hgone : w.control t ≠ .gone) :
    Tally t w (w.leave t) := by
  obtain ⟨hroots, hlive, -⟩ := leave_same w t
  refine of_becomes (becomes_leave hsound h.known) ⟨rfl, rfl, hjoined.symm, fun _ => hreleased.symm,
    fun _ => ?_⟩ hroots hlive trivial
  simp [show (w.thread t).control ≠ .gone from hgone]

/-- A thread goes on after a wait or a collection. -/
theorem continueWith (h : Keeper t w) {k : After}
    (hretire : k = .retire → ∃ own away, w.Sound own away)
    (hjoined : (w.control t).joined = k.joined)
    (hreleased : (w.control t).released = decide (k = .retire)) (hgone : w.control t ≠ .gone)
    (o : Outcome) : Tally t w (w.continueWith t k o) := by
  have hsequel : ∀ consumer, k.consumer? = some consumer → Tally t w (w.continueWith t k o) :=
    fun consumer hconsumer =>
      of_sequel h (Sequel.continueWith (G := fun _ _ => True) h.known .collect hconsumer o
        fun _ _ _ _ => trivial) hjoined fun _ => by
          rw [hreleased]
          exact decide_eq_false fun heq => by rw [heq] at hconsumer; cases hconsumer
  have hset : ∀ w₁ : World, w₁.threads = w.threads →
      w₁.store.collector.roots = w.store.collector.roots → w₁.store.live = w.store.live →
      k.joined = [] → k ≠ .retire → ∀ c : Control, c.joined = [] → c.released = false →
      c ≠ .gone → { w.thread t with control := c }.Apt → Tally t w (w₁.setControl t c) := by
    intro w₁ hthreads hroots hlive hk hne c hc hfree hcgone hapt
    refine setControl h hthreads hroots hlive (by rw [hc, hjoined, hk]) (fun _ => ⟨?_, ?_⟩) hapt
    · rw [hfree, hreleased, decide_eq_false hne]
    · simp [hcgone, hgone]
  cases k with
  | instruction => exact hset w rfl rfl rfl rfl (by simp) _ rfl rfl (by simp) trivial
  | reply consumer => exact hsequel _ rfl
  | start function args consumer => exact hsequel _ rfl
  | join j consumer => exact hsequel _ rfl
  | pause ending =>
    cases ending <;>
      exact hset _ (by rfl) (by rfl) (by rfl) rfl (by simp) _ rfl rfl (by simp) trivial
  | retire =>
    obtain ⟨own, away, hsound⟩ := hretire rfl
    exact leave h hsound hjoined (hreleased.trans (decide_eq_true rfl)) hgone

/-- Every step moves the registry by as much as the roots of its thread. -/
theorem step {own : Ledger} (h : Keeper t w) (hsound : w.Sound own none)
    (horder : (w.thread t).InOrder) : Tally t w (w.step t) := by
  have hset : ∀ w₁ : World, w₁.threads = w.threads →
      w₁.store.collector.roots = w.store.collector.roots → w₁.store.live = w.store.live →
      ∀ c : Control, (c.joined, c.released, decide (c = .gone)) =
        ((w.control t).joined, (w.control t).released, decide (w.control t = .gone)) →
      { w.thread t with control := c }.Apt → Tally t w (w₁.setControl t c) := by
    intro w₁ hthreads hroots hlive c heq hapt
    exact of_becomes (becomes_setControl hthreads h.known c) (.of_control rfl rfl heq) hroots hlive
      hapt
  have hlater : ∀ w₁ : World, w₁.threads = w.threads →
      w₁.store.collector.roots = w.store.collector.roots →
      w₁.store.collector.nextId = w.store.collector.nextId → w₁.store.live = w.store.live →
      ∀ k o, k ≠ .retire → (w.control t).joined = k.joined → (w.control t).released = false →
      w.control t ≠ .gone → Tally t w (w₁.continueWith t k o) := by
    intro w₁ hthreads hroots hnext hlive k o hne hjoined hreleased hgone
    refine (continueWith (h.before hthreads hroots hnext hlive) (fun heq => absurd heq hne) ?_ ?_ ?_
      o).before hthreads hroots hlive <;> rw [control, thread_congr hthreads]
    · exact hjoined
    · exact hreleased.trans (decide_eq_false hne).symm
    · exact hgone
  have hpass : ∀ wait, let w₁ := (w.passWait t wait).1
      w₁.threads = w.threads ∧ w₁.store.collector = w.store.collector ∧
        w₁.store.live = w.store.live := fun wait =>
    ⟨threads_passWait w t wait, collector_passWait w t wait, live_passWait w t wait⟩
  obtain ⟨-, hparkLive, hparkRoots⟩ := park_same w t
  obtain ⟨-, hunparkLive, hunparkRoots⟩ := unpark_same w t
  have hunparkNext : (w.unpark t).store.collector.nextId = w.store.collector.nextId := by
    unfold unpark
    split <;> rfl
  have hapt := h.apt
  rw [Thread.InOrder, ← control] at horder
  unfold World.step
  simp only
  cases hc : w.control t <;> rw [hc] at horder hlater hset <;>
    simp only [show (w.thread t).control = _ from hc]
  case idle | finished | gone => exact refl hapt
  case running =>
    split
    · rw [endRun_eq]
      cases (w.thread t).role <;> exact hset _ rfl rfl rfl _ rfl trivial
    split
    · exact hset _ rfl rfl rfl _ rfl trivial
    · exact execute h (by rw [hc]; rfl) fun _ => by rw [hc]; rfl
  case stepping => exact execute h (by rw [hc]; rfl) fun _ => by rw [hc]; rfl
  case rendezvous force k =>
    have hne := horder.2.ne_retire
    split
    · refine setControl h (threads_park w t) hparkRoots hparkLive (by rw [hc]; rfl) (fun _ => ?_)
        trivial
      rw [hc, Control.released_lingering, decide_eq_false hne]
      exact ⟨rfl, by simp⟩
    split
    · exact hlater _ (by rfl) (by rfl) (by rfl) (by rfl) k _ hne horder.2.joined.symm rfl (by simp)
    · exact hset _ (by rfl) (by rfl) (by rfl) _ rfl trivial
  case lingering k =>
    -- the only wait for a collection after which a thread may leave
    have hsame : (w.unpark t).control t = .lingering k := by
      rw [control, thread_unpark, ← control, hc]
    refine (continueWith (h.before (threads_unpark w t) hunparkRoots hunparkNext hunparkLive)
      (fun _ => ⟨own, none, hsound.unpark t⟩) ?_ ?_ (by simp [hsame]) _).before (threads_unpark w t)
      hunparkRoots hunparkLive <;> rw [hsame]
    · cases k <;> trivial
    · exact Control.released_lingering k
  case gathering k => exact hset _ rfl rfl rfl _ rfl trivial
  case sweeping k =>
    exact hlater _ (by rfl) (by rfl) (by rfl) (by rfl) k _ horder.2.ne_retire horder.2.joined.symm
      rfl (by simp)
  case blocked wait k =>
    obtain ⟨hthreads, hcollector, hlive⟩ := hpass wait
    have hroots := congrArg Collector.roots hcollector
    split <;> rename_i heq <;> rw [heq] at hthreads hroots hlive <;>
      exact hset _ hthreads hroots hlive _ rfl trivial
  case waiting wait k =>
    obtain ⟨hthreads, hcollector, hlive⟩ := hpass wait
    have hroots := congrArg Collector.roots hcollector
    have hnext := congrArg Collector.nextId hcollector
    split <;> rename_i heq <;> rw [heq] at hthreads hroots hnext hlive
    · exact hset _ hthreads hroots hlive _ rfl trivial
    · exact hlater _ hthreads hroots hnext hlive k _ horder.ne_retire rfl rfl (by simp)
  case leaving o k =>
    exact hlater _ (threads_unpark w t) hunparkRoots hunparkNext hunparkLive k _ horder.ne_retire
      rfl rfl (by simp)
  case enrolling =>
    have hbecomes : ∀ c, Becomes t _ w ((w.register t).setControl t c) := fun c =>
      (becomes_register h.known).setControl h.known c
    have hcontrol : (w.thread t).control = .enrolling := hc
    split
    · exact of_becomes (hbecomes _) (.of_control rfl rfl (by rw [hcontrol]; rfl)) rfl rfl trivial
    · rename_i i hrole
      refine of_becomes (hbecomes _) (.of_control rfl rfl (by rw [hcontrol]; rfl)) rfl rfl ?_
      unfold Thread.Apt at hapt
      rw [hcontrol] at hapt
      exact hapt (by simp [hrole])
  case equipping =>
    split <;> exact equip h hc rfl rfl (by simp) fun _ => trivial
  case entering =>
    split
    · exact hset _ rfl rfl rfl _ rfl trivial
    · exact enter h (by rw [hc]; rfl) (fun _ => by rw [hc]; rfl) _ _
  case pausing e =>
    split
    · exact hset _ (threads_park w t) hparkRoots hparkLive _ rfl trivial
    · exact hset _ (by rfl) (by rfl) (by rfl) _ rfl trivial
  case publishing e =>
    split
    · exact hset _ rfl rfl rfl _ rfl trivial
    · rename_i i hrole
      obtain ⟨-, hroots, -, hlive⟩ := published_same w t i e
      have hcontrol : (w.thread t).control = .publishing e := hc
      refine of_becomes (becomes_publish h.known i e)
        (.of_control rfl rfl (by rw [hcontrol]; rfl)) ?_ ?_ trivial
      · rw [publish_eq]
        exact hroots
      · rw [publish_eq]
        exact hlive
  case resuming =>
    exact hset _ (by rfl) (by rfl) (by rfl) _ rfl trivial
  case releasing =>
    split
    · rename_i hrole
      exact setControl h rfl rfl rfl (by rw [hc]; rfl) (fun hne => absurd hrole hne) trivial
    · rename_i i hrole
      exact release h hrole hc
  case retiring =>
    split
    · exact hset _ (threads_park w t) hparkRoots hparkLive _ rfl trivial
    · exact leave h hsound (by rw [hc]; rfl) (by rw [hc]; rfl) (by simp [hc])
  case unrooting => exact unroot h hc
  case littering n =>
    cases n with
    | zero =>
      exact hset _ rfl rfl rfl _ rfl trivial
    | succ n =>
      exact hset _ (by rfl) (by rfl) (by rfl) _ rfl trivial
  case resolving agenda =>
    have hhost : (w.thread t).role = .host := by
      unfold Thread.Apt at hapt
      rwa [show (w.thread t).control = _ from hc] at hapt
    cases agenda with
    | nil =>
      exact setControl h rfl rfl rfl (by rw [hc]; rfl) (fun hne => absurd hhost hne) trivial
    | cons task rest =>
      obtain ⟨d, f, v⟩ := task
      cases hr : w.store.heap.resolve f v <;> simp only [hr] <;>
        exact setControl h (by rfl) (by rfl) (by rfl) (by rw [hc]; rfl)
          (fun hne => absurd hhost hne) hhost

/-- A task is given to a thread of the host that rests. -/
theorem assign (h : Keeper t w) (ht : w.Spare t) {task : Task}
    (htask : task.Orderly (w.thread t)) : Tally t w (w.assign t task) := by
  have hhost : (w.thread t).role ≠ .host → False := fun hne => hne ht.host
  have hjoined : (w.control t).joined = [] := by
    rcases control_of_atRest ht.rests with hc | ⟨o, hc⟩ | hc <;> rw [hc] <;> rfl
  have hset : ∀ c : Control, c.joined = [] → { w.thread t with control := c }.Apt →
      Tally t w (w.setControl t c) := fun c hc hapt =>
    setControl h rfl rfl rfl (hc.trans hjoined.symm) (fun hne => (hhost hne).elim) hapt
  obtain ⟨-, hparkLive, hparkRoots⟩ := park_same w t
  cases task <;> simp only [World.assign]
  case enroll =>
    split
    · exact hset _ rfl trivial
    · exact hset _ rfl fun hne => (hhost hne).elim
  case equip => exact hset _ rfl htask
  case retire | run | litter | lock => exact hset _ rfl trivial
  case pause =>
    split
    · exact setControl h (threads_park w t) hparkRoots hparkLive (by rw [hjoined]; rfl)
        (fun hne => (hhost hne).elim) trivial
    · exact setControl h (by rfl) (by rfl) (by rfl) (by rw [hjoined]; rfl)
        (fun hne => (hhost hne).elim) trivial
  case safepoint =>
    split <;> exact hset _ rfl trivial
  case call function args => exact enter h hjoined (fun hne => (hhost hne).elim) function args
  case nest =>
    refine of_becomes (becomes_nest ht.known) ⟨rfl, rfl, ?_, fun hne => (hhost hne).elim,
      fun hne => (hhost hne).elim⟩ ?_ ?_ trivial
    · exact hjoined.symm
    · rw [nest_eq ht.known]
      exact hparkRoots
    · rw [nest_eq ht.known]
      exact hparkLive
  case request r =>
    by_cases hr : r = .collect
    · subst hr
      exact hset _ rfl trivial
    · exact of_sequel h (Sequel.request (G := fun _ _ => True) (k := .host) ht.known r r
        (fun _ => hr) fun _ _ _ _ => trivial) hjoined fun hne => (hhost hne).elim

end Tally

/-! ### The roots of all threads -/

/-- Every root is the root of the global names, one that the host answers for or one that a thread
answers for. -/
structure Accounted (host : List RootId) (w : World) : Prop where
  count : ∀ id, w.rootIds.count id =
    (1 :: host).count id + w.total fun th => th.rootIds.count id
  /-- What an isolate carries holds its future. -/
  carried : ∀ u i, (w.thread u).role = .isolate i → (w.control u).released = false →
    ∃ vs, (i.transfer, .pinned vs) ∈ w.store.collector.roots ∧ .ref i.future ∈ vs
  live : w.store.live = w.count Thread.active
  apt : ∀ u, (w.thread u).Apt

theorem count_brought (h : Bears w w') (id : RootId) : (brought w w').count id =
    ∑ u ∈ Finset.Ico w.threads.size w'.threads.size, (w'.thread u).rootIds.count id := by
  rcases h with hsize | ⟨hsize, -⟩
  · rw [brought_of_size hsize, hsize, Finset.Ico_self]
    rfl
  · rw [brought_of_succ hsize, hsize, Nat.Ico_succ_singleton, Finset.sum_singleton]

theorem Newborn.active_apt {th : Thread} (h : Newborn th w) : th.active = true ∧ th.Apt := by
  obtain ⟨name, i, rfl⟩ := h.fresh
  exact ⟨rfl, fun _ => rfl⟩

namespace Accounted

variable {host host' : List RootId}

theorem keeper (h : Accounted host w) (hd : w.Drawn) (ht : t < w.threads.size) :
    Keeper t w where
  known := ht
  drawn := hd
  registered id := by
    rw [h.count]
    refine le_trans ?_ (Nat.le_add_left _ _)
    exact Finset.single_le_sum (f := fun u => (w.thread u).rootIds.count id)
      (fun _ _ => Nat.zero_le _) (Finset.mem_range.2 ht)
  apt := h.apt t
  counted hactive := h.live ▸ one_le_count ht hactive

/-- No root has two threads that answer for it. -/
theorem unique (h : Accounted host w) (hd : w.Drawn) {id : RootId} (ht : t < w.threads.size)
    (hu : u < w.threads.size) (hidt : id ∈ (w.thread t).rootIds)
    (hidu : id ∈ (w.thread u).rootIds) : t = u := by
  by_contra hne
  have hpair : ({t, u} : Finset Nat) ⊆ Finset.range w.threads.size := by
    intro v hv
    rcases Finset.mem_insert.1 hv with rfl | hv
    · exact Finset.mem_range.2 ht
    · exact Finset.mem_range.2 (Finset.mem_singleton.1 hv ▸ hu)
  have hsum : _ ≤ w.total fun th => th.rootIds.count id :=
    Finset.sum_le_sum_of_subset (f := fun v => (w.thread v).rootIds.count id) hpair
  rw [Finset.sum_pair hne] at hsum
  have hcount := h.count id
  have hone := List.nodup_iff_count_le_one.1 hd.nodup id
  have hpost := List.count_pos_iff.2 hidt
  have hposu := List.count_pos_iff.2 hidu
  omega

theorem lt_size_of_role {i : Isolate} (h : (w.thread u).role = .isolate i) :
    u < w.threads.size := by
  by_contra hle
  rw [thread_of_size_le (Nat.not_lt.1 hle)] at h
  cases h

theorem transfer_mem_rootIds {i : Isolate} (hrole : (w.thread u).role = .isolate i)
    (hreleased : (w.control u).released = false) : i.transfer ∈ (w.thread u).rootIds := by
  refine List.mem_append_right _ ?_
  rw [control] at hreleased
  simp [Thread.carried, hrole, hreleased]

/-- A thread has made its step. -/
theorem turn (h : Accounted host w) (hd : w.Drawn) (ht : t < w.threads.size)
    (htally : Tally t w w')
    (hothers : ∀ u, u ≠ t → u < w.threads.size → w'.thread u = w.thread u) (hborn : Bears w w') :
    Accounted host w' where
  count id := by
    have hturn := total_turn (f := fun th => th.rootIds.count id) ht hborn.size_le hothers
    have hstep := htally.count id
    have hcount := h.count id
    rw [← count_brought hborn] at hturn
    omega
  carried u i hrole hreleased := by
    by_cases hut : u = t
    · subst hut
      have hmem : i.transfer ∈ (w'.thread u).carried := by
        rw [control] at hreleased
        simp [Thread.carried, hrole, hreleased]
      have hrole₀ := htally.role ▸ hrole
      have hreleased₀ : (w.control u).released = false := by
        have hmem₀ := htally.carried _ hmem
        rw [Thread.carried, hrole₀] at hmem₀
        by_contra hnot
        rw [control, Bool.not_eq_false] at hnot
        simp [hnot] at hmem₀
      obtain ⟨vs, hvs, hfuture⟩ := h.carried u i hrole₀ hreleased₀
      exact ⟨vs, htally.kept _ hvs fun _ => hmem, hfuture⟩
    by_cases hlt : u < w.threads.size
    · rw [control, hothers u hut hlt] at hreleased
      rw [hothers u hut hlt] at hrole
      obtain ⟨vs, hvs, hfuture⟩ := h.carried u i hrole hreleased
      refine ⟨vs, htally.kept _ hvs fun hmem => absurd ?_ hut, hfuture⟩
      exact h.unique hd hlt ht (transfer_mem_rootIds hrole hreleased) hmem
    · rcases hborn.newborn (Nat.not_lt.1 hlt) with hnone | ⟨-, hnew⟩
      · rw [hnone] at hrole
        cases hrole
      · exact hnew.transfer i hrole
  live := by
    have hturn := count_turn (p := Thread.active) ht hborn.size_le hothers
    have hstep := htally.live
    have hlive := h.live
    have hnew : ∑ u ∈ Finset.Ico w.threads.size w'.threads.size, (w'.thread u).active.toNat =
        w'.threads.size - w.threads.size := by
      rcases hborn with hsize | ⟨hsize, hnew⟩
      · rw [hsize, Finset.Ico_self, Nat.sub_self]
        rfl
      · rw [hsize, Nat.Ico_succ_singleton, Finset.sum_singleton, hnew.active_apt.1,
          Nat.add_sub_cancel_left]
        rfl
    have hle := hborn.size_le
    omega
  apt u := by
    by_cases hut : u = t
    · exact hut ▸ htally.apt
    by_cases hlt : u < w.threads.size
    · rw [hothers u hut hlt]
      exact h.apt u
    · rcases hborn.newborn (Nat.not_lt.1 hlt) with hnone | ⟨-, hnew⟩
      · rw [hnone]
        trivial
      · exact hnew.active_apt.2

/-- The host changes what is shared. -/
theorem shared (h : Accounted host w) (hsize : w'.threads.size = w.threads.size)
    (hthread : ∀ u, ∃ n, w'.thread u = { w.thread u with spent := n })
    (hlive : w'.store.live = w.store.live)
    (hcount : ∀ id, w'.rootIds.count id + host.count id = w.rootIds.count id + host'.count id)
    (hkept : ∀ u i vs, (w.thread u).role = .isolate i →
      (i.transfer, .pinned vs) ∈ w.store.collector.roots →
      (i.transfer, .pinned vs) ∈ w'.store.collector.roots) : Accounted host' w' where
  count id := by
    have htotal := total_congr (f := fun th => th.rootIds.count id) hsize fun u => by
      obtain ⟨n, hn⟩ := hthread u
      rw [hn]
      rfl
    have hold := h.count id
    have hmove := hcount id
    rw [List.count_cons] at hold ⊢
    omega
  carried u i hrole hreleased := by
    obtain ⟨n, hn⟩ := hthread u
    rw [hn] at hrole
    rw [control, hn] at hreleased
    obtain ⟨vs, hvs, hfuture⟩ := h.carried u i hrole hreleased
    exact ⟨vs, hkept u i vs hrole hvs, hfuture⟩
  live := by
    rw [hlive, h.live]
    refine (count_congr hsize fun u => ?_).symm
    obtain ⟨n, hn⟩ := hthread u
    rw [hn]
    rfl
  apt u := by
    obtain ⟨n, hn⟩ := hthread u
    rw [hn]
    exact h.apt u

/-- A new thread of the host. -/
theorem add (h : Accounted host w) {c : Control} (hjoined : c.joined = [])
    (hapt : Thread.Apt { control := c }) : Accounted host (w.add { control := c }).1 where
  count id := by
    rw [total_add]
    refine (h.count id).trans ?_
    simp [Thread.rootIds, Thread.carried, hjoined]
  carried u i hrole hreleased := by
    rw [thread_add] at hrole
    rw [control, thread_add] at hreleased
    split at hrole
    · cases hrole
    · rename_i hne
      rw [if_neg hne] at hreleased
      exact h.carried u i hrole hreleased
  live := by
    rw [count_eq_total, total_add, ← count_eq_total]
    exact h.live
  apt u := by
    rw [thread_add]
    split
    · exact hapt
    · exact h.apt u

end Accounted

namespace Sound

variable {own : Ledger} {away : Option ThreadId}

theorem drawn (h : w.Sound own away) : w.Drawn := ⟨h.tidy.rootIds, h.tidy.rootIds_lt⟩

/-- Whoever answers for a root owns it. -/
theorem owner_rootIds (h : w.Sound own none) {id : RootId} (hid : id ∈ (w.thread u).rootIds) :
    own id = .stack u ∨ own id = .join u ∨ own id = .transfer u := by
  rcases List.mem_append.1 hid with hid | hid
  · rcases List.mem_append.1 hid with hid | hid
    · exact .inl (h.root u id (by simpa using hid)).2
    · have hstands := h.stands u (by simp)
      have hjoin : ∀ k : After, k.Stands own u (w.thread u) → id ∈ k.joined →
          own id = .join u := by
        intro k hk hmem
        cases k with
        | join j consumer =>
          obtain ⟨-, hanchor, hresults⟩ := hk
          rcases List.mem_cons.1 hmem with rfl | hmem
          · exact hanchor
          · exact List.mem_singleton.1 hmem ▸ hresults
        | _ => cases hmem
      refine .inr (.inl ?_)
      cases hc : (w.thread u).control <;> rw [hc] at hstands hid
      case blocked | waiting | leaving => exact hjoin _ hstands.1 hid
      all_goals cases hid
  · unfold Thread.carried at hid
    split at hid
    · cases hid
    · rename_i i hrole
      split at hid
      · cases hid
      · exact .inr (.inr (List.mem_singleton.1 hid ▸ h.transfer u i hrole))

end Sound

end World

/-! ### Roots in a run -/

/-- The roots the host answers for after an act, from those before. -/
def Act.guarded (h : Hosted) (ids : List RootId) : Act → List RootId
  | .root _ => h.world.store.collector.nextId :: ids
  | .unroot id => ids.erase id
  | _ => ids

/-- The roots the host has registered and not given up. -/
def guarded : List (Hosted × Act) → List RootId
  | [] => []
  | (h, a) :: past => a.guarded h (guarded past)

theorem Store.roots_publish (s : Store) (fs : List Native) :
    (s.publish fs).collector.roots = s.collector.roots := by
  induction fs generalizing s with
  | nil => rfl
  | cons f fs ih => exact ih _

namespace World.Accounted

/-- What the host does to objects, global names, roots and the limit. -/
theorem tended {host : List RootId} {h : Hosted} {a : Act} (hw : Accounted host h.world)
    (hsound : h.Sound) (ha : a.Given h) (htends : a.tends = true) :
    Accounted (a.guarded h host) (a.apply h).world := by
  obtain ⟨own, hsound, hguards⟩ := hsound
  have htended := Act.tended htends h
  have hthread : ∀ u, ∃ n, (a.apply h).world.thread u = { h.world.thread u with spent := n } :=
    fun u => ⟨_, thread_congr htended.threads u⟩
  have hsize := congrArg Array.size htended.threads
  have hsame : (a.apply h).world.store.collector.roots = h.world.store.collector.roots →
      Accounted host (a.apply h).world := fun hroots => by
    refine hw.shared hsize hthread htended.live (fun id => ?_) fun _ _ _ _ hvs => hroots ▸ hvs
    rw [rootIds, hroots]
    rfl
  -- no thread answers for a root of the host
  have hapart : ∀ id ∈ h.guards, id ≠ 1 ∧ ∀ u, id ∉ (h.world.thread u).rootIds := by
    intro id hid
    have hown := hguards id hid
    refine ⟨fun heq => ?_, fun u hmem => ?_⟩
    · rw [heq, hsound.globals.2] at hown
      cases hown
    · rcases hsound.owner_rootIds hmem with h | h | h <;> rw [hown] at h <;> cases h
  have htransfer : ∀ id ∈ h.guards, ∀ u i, (h.world.thread u).role = .isolate i →
      i.transfer ≠ id := by
    rintro id hid u i hrole rfl
    have hown := hguards _ hid
    rw [hsound.transfer u i hrole] at hown
    cases hown
  cases a with
  | root vs =>
    refine hw.shared hsize hthread htended.live (fun id => ?_) fun _ _ _ _ hvs =>
      List.mem_cons_of_mem _ hvs
    have hids : (Act.apply h (.root vs)).world.rootIds =
        h.world.store.collector.nextId :: h.world.rootIds := rfl
    rw [hids, Act.guarded, List.count_cons, List.count_cons]
    omega
  | pin id v =>
    have hids : (Act.apply h (.pin id v)).world.rootIds = h.world.rootIds :=
      Collector.Tidy.ids_setPinned _ _ _
    refine hw.shared hsize hthread htended.live (fun id' => ?_) fun u i vs hrole hvs => ?_
    · rw [hids]
      rfl
    · exact List.mem_map.2 ⟨_, hvs, if_neg (htransfer id ha.1 u i hrole)⟩
  | unroot id =>
    obtain ⟨hne, hnobody⟩ := hapart id ha
    refine hw.shared hsize hthread htended.live (fun id' => ?_) fun u i vs hrole hvs =>
      (mem_roots_dropRoot _).2 ⟨hvs, htransfer id ha u i hrole⟩
    have hids : (Act.apply h (.unroot id)).world.rootIds = (h.world.dropRoot id).rootIds := rfl
    rw [hids, count_rootIds_dropRoot, Act.guarded, List.count_erase]
    by_cases heq : id = id'
    · subst heq
      have hcount := hw.count id
      have hzero : (h.world.total fun th => th.rootIds.count id) = 0 :=
        Finset.sum_eq_zero fun u _ => List.count_eq_zero.2 (hnobody u)
      have hone := List.nodup_iff_count_le_one.1 hsound.drawn.nodup id
      rw [List.count_cons, hzero] at hcount
      simp only [↓reduceIte, beq_self_eq_true, beq_iff_eq, hne.symm] at hcount ⊢
      omega
    · rw [if_neg heq]
      simp [heq]
  | make | makeImmortal | pushItem | setGlobal | setLimit | supply => exact hsame rfl
  | resolve c v =>
    refine hsame ?_
    simp only [Act.apply]
    split <;> rfl
  | setAttr receiver name v =>
    refine hsame ?_
    simp only [Act.apply]
    split <;> rfl
  | library l =>
    refine hsame ?_
    simp only [Act.apply, Store.addLibrary]
    cases l.entries with
    | error e => rfl
    | ok fs => exact Store.roots_publish _ fs
  | _ => cases htends

/-- What a thread does, or the host does to one that rests, moves the registry by as much as the
roots of that thread. -/
theorem tally {host : List RootId} {c : Chronicle} {a : Act} {t : ThreadId}
    (h : Accounted host c.world) (hsound : c.toHosted.Sound)
    (horder : ∀ t, (c.world.thread t).InOrder) (ha : a.Orderly c) (hactor : a.actor? = some t) :
    Tally t c.world (a.record c).world := by
  obtain ⟨own, hsound, -⟩ := hsound
  have hkeeper := h.keeper hsound.drawn (Act.lt_size_of_actor ha hactor)
  have hset : c.world.Spare t → ∀ w₁ : World, w₁.threads = c.world.threads →
      w₁.store.collector.roots = c.world.store.collector.roots →
      w₁.store.live = c.world.store.live → ∀ ctrl : Control, ctrl.joined = [] →
      { c.world.thread t with control := ctrl }.Apt → Tally t c.world (w₁.setControl t ctrl) := by
    intro ht w₁ hthreads hroots hlive ctrl hjoined hapt
    refine Tally.setControl hkeeper hthreads hroots hlive ?_ (fun hne => absurd ht.host hne) hapt
    rcases control_of_atRest ht.rests with hc | ⟨o, hc⟩ | hc <;> rw [hc] <;> exact hjoined
  have hsetVm : c.world.Spare t → ∀ vm, Tally t c.world (c.world.setVm t vm) := fun ht vm =>
    Tally.of_becomes (becomes_modifyThread rfl ht.known _)
      ⟨rfl, rfl, rfl, fun _ => rfl, fun _ => .rfl⟩ rfl rfl (h.apt t)
  cases a with
  | step u =>
    cases hactor
    exact Tally.step hkeeper hsound (horder t)
  | assign u task =>
    cases hactor
    exact Tally.assign hkeeper ha.1 ha.2
  | wait u what parked =>
    cases hactor
    obtain ⟨-, hlive, hroots⟩ := park_same c.world t
    cases parked with
    | true => exact hset ha _ (threads_park _ t) hroots hlive _ rfl trivial
    | false => exact hset ha _ rfl rfl rfl _ rfl trivial
  | dismiss u =>
    cases hactor
    have hgone := hset ha c.world rfl rfl rfl .gone rfl trivial
    exact ⟨hgone.role, hgone.carried, hgone.kept, hgone.count, hgone.live, hgone.apt⟩
  | push u v | pop u =>
    cases hactor
    exact hsetVm ha _
  | _ => cases hactor

/-- Everything that happens keeps the sum. -/
theorem act {c : Chronicle} {a : Act} (h : Accounted (ScriptCore.guarded c.past) c.world)
    (hsound : c.toHosted.Sound) (horder : ∀ t, (c.world.thread t).InOrder) (ha : a.Orderly c)
    (hgiven : a.Given c.toHosted) :
    Accounted (ScriptCore.guarded (a.record c).past) (a.record c).world := by
  show Accounted (a.guarded c.toHosted (ScriptCore.guarded c.past)) (a.apply c.toHosted).world
  by_cases htends : a.tends = true
  · exact h.tended hsound hgiven htends
  cases hactor : a.actor? with
  | some t =>
    have htally := h.tally hsound horder ha hactor
    have hpasses := Act.passes ha hactor
    obtain ⟨own, hsound, -⟩ := hsound
    have hguarded : a.guarded c.toHosted (ScriptCore.guarded c.past) =
        ScriptCore.guarded c.past := by
      cases a <;> trivial
    rw [hguarded]
    exact h.turn hsound.drawn (Act.lt_size_of_actor ha hactor) htally hpasses.others hpasses.born
  | none =>
    cases a with
    | elapse now =>
      exact h.shared (Array.size_map ..) (fun u => ⟨0, thread_beginRound _ _ _⟩) rfl (fun id => rfl)
        fun _ _ _ _ hvs => hvs
    | spawn => exact h.add rfl trivial
    | helper agenda => exact h.add rfl rfl
    | resume =>
      exact h.shared rfl (fun u => ⟨_, rfl⟩) rfl (fun id => rfl) fun _ _ _ _ hvs => hvs
    | step | assign | wait | dismiss | push | pop => cases hactor
    | _ => exact absurd rfl htends

end World.Accounted

/-- What happens is in order, and every reference that is handed over is live. -/
def Act.Proper (c : Chronicle) (a : Act) : Prop := a.Orderly c ∧ a.Given c.toHosted

/-- The next step of the thread uses something that the host hands over. -/
def Control.takes : Control → Bool
  | .waiting _ (.start _ _ .host) | .leaving _ (.start _ _ .host) | .resolving _ => true
  | _ => false

theorem Act.proper_step {c : Chronicle} {t : ThreadId} (hready : c.world.ready t = true)
    (htakes : (c.world.control t).takes = false) : (Act.step t).Proper c := by
  have hhanded : ∀ k : After, (∀ function args, k ≠ .start function args .host) →
      k.Handed c.world.store.heap := by
    intro k hk
    unfold After.Handed
    split
    · exact absurd rfl (hk _ _)
    · trivial
  refine ⟨hready, ?_⟩
  show c.world.StepGiven t
  unfold World.StepGiven
  rw [World.control] at htakes
  split <;> rename_i hc
  · refine hhanded _ fun function args hk => ?_
    rw [hc, hk] at htakes
    cases htakes
  · refine hhanded _ fun function args hk => ?_
    rw [hc, hk] at htakes
    cases htakes
  · rw [hc] at htakes
    cases htakes
  · trivial

/-- In every state of every run each root has one who answers for it. -/
theorem Run.accounted {c : Chronicle} (h : Run Act.Proper c) :
    World.Accounted (guarded c.past) c.world := by
  induction h with
  | @new collector isolates s hs =>
    have hroots : s.collector.roots = [(1, .globals)] := by
      rw [← Store.publish_of_new hs]
      exact Store.roots_publish _ _
    have hthread : ∀ t, World.thread { store := s } t = {} := fun t =>
      World.thread_of_size_le (Nat.zero_le t)
    refine ⟨fun id => ?_, fun u i hrole => ?_, (World.tended_new hs).live, fun u => ?_⟩
    · rw [World.rootIds, hroots]
      rfl
    · rw [hthread] at hrole
      cases hrole
    · rw [hthread]
      trivial
  | act hrun ha ih =>
    exact ih.act (hrun.sound fun _ _ h => h.2) (hrun.mono fun _ _ h => h.1).balanced.inOrder ha.1
      ha.2

namespace Run

variable {c : Chronicle} {a : Act} {t : ThreadId}

theorem hosted (h : Run Act.Proper c) : c.toHosted.Sound := h.sound fun _ _ ha => ha.2

theorem inOrder (h : Run Act.Proper c) (t : ThreadId) : (c.world.thread t).InOrder :=
  (h.mono fun _ _ ha => ha.1).balanced.inOrder t

/-- A thread keeps its role. -/
theorem role_record (h : Run Act.Proper c) (ha : a.Proper c) (ht : t < c.world.threads.size) :
    ((a.record c).world.thread t).role = (c.world.thread t).role := by
  by_cases hactor : a.actor? = some t
  · exact (h.accounted.tally h.hosted h.inOrder ha.1 hactor).role
  · obtain ⟨n, hn⟩ := Act.bystander ha.1 hactor ht
    rw [hn]

/-- Whatever others do, the roots that a thread answers for stay as they are. -/
theorem root_kept (h : Run Act.Proper c) (ha : a.Proper c) (hactor : a.actor? ≠ some t)
    (ht : t < c.world.threads.size) {r : RootId × Holder}
    (hr : r ∈ c.world.store.collector.roots) (hid : r.1 ∈ (c.world.thread t).rootIds) :
    r ∈ (a.record c).world.store.collector.roots := by
  obtain ⟨own, hsound, hguards⟩ := h.hosted
  -- the host gives up roots of its own only
  have hhost : ∀ id ∈ c.guards, r.1 ≠ id := by
    rintro id hg rfl
    have hown := hguards _ hg
    rcases hsound.owner_rootIds hid with h' | h' | h' <;> rw [hown] at h' <;> cases h'
  cases hu : a.actor? with
  | some u =>
    have htally := h.accounted.tally h.hosted h.inOrder ha.1 hu
    refine htally.kept r hr fun hmem => ?_
    have heq := h.accounted.unique hsound.drawn ht (Act.lt_size_of_actor ha.1 hu) hid hmem
    exact absurd (heq ▸ hu) hactor
  | none =>
    show r ∈ (a.apply c.toHosted).world.store.collector.roots
    cases a with
    | root vs => exact List.mem_cons_of_mem _ hr
    | pin id v => exact List.mem_map.2 ⟨r, hr, if_neg (hhost id ha.2.1)⟩
    | unroot id => exact (World.mem_roots_dropRoot _).2 ⟨hr, hhost id ha.2⟩
    | resolve | setAttr =>
      simp only [Act.apply]
      split <;> exact hr
    | library l =>
      simp only [Act.apply, Store.addLibrary]
      cases l.entries with
      | error e => exact hr
      | ok fs => exact (Store.roots_publish c.world.store fs).symm ▸ hr
    | step | assign | wait | dismiss | push | pop => cases hu
    | _ => exact hr

/-- Until an isolate lets go of it, the root that it carries stays as it is. -/
theorem transfer_kept (h : Run Act.Proper c) (ha : a.Proper c) {i : Isolate}
    (hrole : (c.world.thread t).role = .isolate i)
    (hreleased : ((a.record c).world.control t).released = false) {holder : Holder}
    (hr : (i.transfer, holder) ∈ c.world.store.collector.roots) :
    (i.transfer, holder) ∈ (a.record c).world.store.collector.roots := by
  have ht := World.Accounted.lt_size_of_role hrole
  by_cases hactor : a.actor? = some t
  · refine (h.accounted.tally h.hosted h.inOrder ha.1 hactor).kept _ hr fun _ => ?_
    have hrole' := (h.role_record ha ht).trans hrole
    rw [World.control] at hreleased
    show i.transfer ∈ ((a.record c).world.thread t).carried
    simp only [Thread.carried, hrole', hreleased]
    exact List.mem_singleton.2 rfl
  · obtain ⟨n, hn⟩ := Act.bystander ha.1 hactor ht
    rw [World.control, hn] at hreleased
    exact h.root_kept ha hactor ht hr (World.Accounted.transfer_mem_rootIds hrole hreleased)

end Run

end ScriptCore
