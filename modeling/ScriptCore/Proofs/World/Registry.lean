import ScriptCore.Proofs.Collector.Accounts
import ScriptCore.Proofs.World.Others
import ScriptCore.Schedule

/-!
# The registry of roots and allocation lists

Who owns the registration of a root changes: a guard removes it when it is dropped, and a disarmed
guard hands it over to whoever has got the name. Allocation lists draw their names from the same
counter, and each thread keeps in mind by itself whether it has one. A registry is the collector
with its threads, its guards and everything that has happened.

* `Registry.Op`, `Registry.perform`: the calls of the registry, and what happens to the heap in
  between; a call may panic;
* `handedOut`, `added`, `Stands`, `mark`: what follows from the past alone;
* `Names`, `Roots`, `Lists`: what is known of names, of roots with their guards, and of allocation
  lists with the marks of threads, one lemma an event;
* `Kept.perform`: every call keeps all of it;
* `Books`, `registry_keeps_books`: what every call does in every state of every run;
* `foreign_removal_crosses_marks`: what happens if a thread takes out the list of another one.
-/

namespace ScriptCore

open Collector (Guard)

/-- A thread takes an allocation list out of the collector, and counts as unregistered then, whoever
has made the list. -/
def World.discharge (w : World) (t : ThreadId) (s : StorageId) : Except Panic World :=
  (w.store.collector.retire s).map fun g =>
    { w with store := { w.store with collector := g } }.modifyThread t fun th =>
      { th with storage := none }

/-- A thread that leaves takes out the list it has registered with. -/
theorem World.unregister_eq {w : World} {t : ThreadId} {s : StorageId}
    (hs : (w.thread t).storage = some s) : w.unregister t = w.discharge t s := by
  rw [unregister, hs]
  rfl

/-- A thread that has asked for it gets an allocation list. -/
theorem World.step_enrolling {w : World} {t : ThreadId} (hc : w.control t = .enrolling) :
    ∃ c, w.step t = (w.register t).setControl t c := by
  unfold World.step
  simp only [show (w.thread t).control = .enrolling from hc]
  exact ⟨_, rfl⟩

namespace Collector

/-- The collector with one root less. -/
def without (g : Collector) (id : RootId) : Collector :=
  { g with roots := g.roots.filter (·.1 != id) }

theorem retire_of_notMem {g : Collector} {s : StorageId} (hs : s ∉ g.storages.map (·.id)) :
    g.retire s = .error (.storageRemovedTwice s) := by
  have hfind : g.storages.find? (·.id == s) = none := by
    refine List.find?_eq_none.2 fun st hst heq => hs ?_
    exact List.mem_map.2 ⟨st, hst, by simpa using heq⟩
  rw [retire, hfind]

/-- What threads and collections do to the heap. -/
def Operation.AtHeap : Operation → Prop
  | .make _ _ | .makeImmortal _ | .collect _ | .setLimit _ | .write _ _ | .clearRequest => True
  | _ => False

/-- Work on the heap is nothing to the registry. -/
theorem Operation.AtHeap.same {op : Operation} (hop : op.AtHeap) (g : Collector) :
    (op.apply g).nextId = g.nextId ∧ (op.apply g).roots = g.roots ∧
      (op.apply g).storages.map (·.id) = g.storages.map (·.id) ∧ (op.apply g).sync = g.sync := by
  cases op with
  | make s o => exact ⟨rfl, rfl, Tidy.ids_make g s o, rfl⟩
  | collect roots => exact ⟨rfl, rfl, Tidy.ids_collect g roots, rfl⟩
  | makeImmortal | setLimit | write | clearRequest => exact ⟨rfl, rfl, rfl, rfl⟩
  | _ => cases hop

end Collector

namespace Registry

/-- What happens to a root or to an allocation list. -/
inductive Event
  | rooted (id : RootId) (holder : Holder)
  /-- A guard that owned the registration is gone. -/
  | dropped (id : RootId)
  /-- The name was taken over from the guard. -/
  | disarmed (id : RootId)
  | removed (id : RootId)
  | enrolled (t : ThreadId) (s : StorageId)
  /-- A thread has taken out an allocation list. -/
  | retired (t : ThreadId) (s : StorageId)
  deriving DecidableEq, Repr

end Registry

/-- A collector and its threads, the guards that are alive, and what has happened, newest first. -/
structure Registry where
  world : World
  guards : List Guard := []
  past : List Registry.Event := []

namespace Registry

/-- What can be called, and what happens to the heap in between. -/
inductive Op
  | root (holder : Holder)
  /-- A guard goes out of scope. -/
  | drop (guard : Guard)
  /-- Exchange a guard for the name of its root. -/
  | disarm (guard : Guard)
  | remove (id : RootId)
  /-- A new thread. -/
  | spawn
  | enroll (t : ThreadId)
  | retire (t : ThreadId) (s : StorageId)
  | work (op : Collector.Operation)

def collector (r : Registry) : Collector := r.world.store.collector

def withCollector (r : Registry) (g : Collector) : Registry :=
  { r with world := { r.world with store := { r.world.store with collector := g } } }

/-- Remember what has happened, if it happened to anything. -/
def record (r : Registry) (event : Nat → Event) : Option Nat → Registry
  | some id => { r with past := event id :: r.past }
  | none => r

/-- A call of the registry, and the panic it ends in, if any. -/
def perform (r : Registry) : Op → Registry × Option Panic
  | .root holder =>
      let (g, guard) := r.collector.guardRoot holder
      let r := { r.withCollector g with guards := guard :: r.guards }
      (r.record (.rooted · holder) guard.id, none)
  | .drop guard =>
      let guards := r.guards.erase guard
      match guard.release r.collector with
      | .ok g => ({ r.withCollector g with guards }.record .dropped guard.id, none)
      | .error p => ({ r with guards }, some p)
  | .disarm guard =>
      -- what is left of the guard is dropped at once
      let (id, husk) := guard.disarm
      let guards := r.guards.erase guard
      match husk.release r.collector with
      | .ok g => ({ r.withCollector g with guards }.record .disarmed id, none)
      | .error p => ({ r with guards }, some p)
  | .remove id =>
      match r.collector.removeRoot id with
      | .ok g => ((r.withCollector g).record .removed id, none)
      | .error p => (r, some p)
  | .spawn => ({ r with world := (r.world.add {}).1 }, none)
  | .enroll t =>
      let w := r.world.assign t .enroll
      match w.control t with
      | .finished (.panicked p) => ({ r with world := w }, some p)
      | _ =>
          let w := w.step t
          ({ r with world := w }.record (.enrolled t) (w.thread t).storage, none)
  | .retire t s =>
      match r.world.discharge t s with
      | .ok w => ({ r with world := w }.record (.retired t) s, none)
      | .error p => (r, some p)
  | .work op => (r.withCollector (op.apply r.collector), none)

/-! ### What follows from the past -/

/-- The name an event draws from the counter. -/
def Event.name? : Event → Option Nat
  | .rooted id _ => some id
  | .enrolled _ s => some s
  | _ => none

def Event.root? : Event → Option (RootId × Holder)
  | .rooted id holder => some (id, holder)
  | _ => none

def Event.enrollment? : Event → Option (ThreadId × StorageId)
  | .enrolled t s => some (t, s)
  | _ => none

def Event.retirement? : Event → Option StorageId
  | .retired _ s => some s
  | _ => none

/-- The event concerns an allocation list. -/
def Event.OfList : Event → Prop
  | .enrolled _ _ | .retired _ _ => True
  | _ => False

/-- All names that have been handed out. -/
def handedOut (past : List Event) : List Nat := past.filterMap Event.name?

/-- All roots that have been added. -/
def added (past : List Event) : List (RootId × Holder) := past.filterMap Event.root?

/-- The threads that have registered, with their allocation lists. -/
def enrollments (past : List Event) : List (ThreadId × StorageId) :=
  past.filterMap Event.enrollment?

/-- The allocation lists that have been taken out. -/
def retirements (past : List Event) : List StorageId := past.filterMap Event.retirement?

/-- The guard of a root is armed and alive. -/
def Armed (past : List Event) (id : RootId) : Prop := .dropped id ∉ past ∧ .disarmed id ∉ past

/-- The name of a root has been taken over, and the root has not been removed. -/
def Owed (past : List Event) (id : RootId) : Prop := .disarmed id ∈ past ∧ .removed id ∉ past

/-- Somebody still owns the registration of a root. -/
def Stands (past : List Event) (id : RootId) : Prop := Armed past id ∨ Owed past id

instance (past : List Event) (id : RootId) : Decidable (Armed past id) :=
  inferInstanceAs (Decidable (_ ∧ _))

instance (past : List Event) (id : RootId) : Decidable (Owed past id) :=
  inferInstanceAs (Decidable (_ ∧ _))

instance (past : List Event) (id : RootId) : Decidable (Stands past id) :=
  inferInstanceAs (Decidable (_ ∨ _))

/-- What a thread keeps in mind: the allocation list it has registered with, unless it has taken
one out since. -/
def mark (t : ThreadId) : List Event → Option StorageId
  | [] => none
  | .enrolled u s :: past => if u = t then some s else mark t past
  | .retired u _ :: past => if u = t then none else mark t past
  | _ :: past => mark t past

/-- Allocation lists were taken out by the threads that had registered with them. -/
def Homely (past : List Event) : Prop :=
  ∀ t s, .retired t s ∈ past → (t, s) ∈ enrollments past

/-! ### Names -/

section past

variable {past : List Event} {e : Event} {id x : RootId} {s : StorageId} {t : ThreadId}
  {holder : Holder} {next : Nat}

theorem added_sublist (past : List Event) :
    ((added past).map (·.1)).Sublist (handedOut past) := by
  induction past with
  | nil => exact .slnil
  | cons e past ih =>
    cases e with
    | rooted id holder => exact ih.cons_cons id
    | enrolled t s => exact ih.cons s
    | _ => exact ih

theorem enrollments_sublist (past : List Event) :
    ((enrollments past).map (·.2)).Sublist (handedOut past) := by
  induction past with
  | nil => exact .slnil
  | cons e past ih =>
    cases e with
    | rooted id holder => exact ih.cons id
    | enrolled t s => exact ih.cons_cons s
    | _ => exact ih

theorem mem_retirements : s ∈ retirements past ↔ ∃ t, .retired t s ∈ past := by
  simp only [retirements, List.mem_filterMap]
  constructor
  · rintro ⟨e, he, hs⟩
    cases e with
    | retired t s' =>
      cases hs
      exact ⟨t, he⟩
    | _ => cases hs
  · rintro ⟨t, ht⟩
    exact ⟨_, ht, rfl⟩

/-- All names are different, and have been drawn from the counter. -/
structure Names (next : Nat) (past : List Event) : Prop where
  lt : ∀ i ∈ handedOut past, i < next
  nodup : (handedOut past).Nodup

namespace Names

theorem draw (h : Names next past) (he : e.name? = some next) : Names (next + 1) (e :: past) := by
  have hout : handedOut (e :: past) = next :: handedOut past := List.filterMap_cons_some he
  constructor
  · rw [hout]
    rintro i (_ | ⟨_, hi⟩)
    · exact Nat.lt_succ_self next
    · exact (h.lt i hi).trans (Nat.lt_succ_self next)
  · rw [hout]
    exact List.nodup_cons.2 ⟨fun hmem => Nat.lt_irrefl _ (h.lt next hmem), h.nodup⟩

theorem keep (h : Names next past) (he : e.name? = none) : Names next (e :: past) := by
  have hout : handedOut (e :: past) = handedOut past := List.filterMap_cons_none he
  exact ⟨hout ▸ h.lt, hout ▸ h.nodup⟩

theorem nodup_added (h : Names next past) : ((added past).map (·.1)).Nodup :=
  h.nodup.sublist (added_sublist past)

theorem nodup_enrollments (h : Names next past) : ((enrollments past).map (·.2)).Nodup :=
  h.nodup.sublist (enrollments_sublist past)

theorem fresh_root (h : Names next past) : next ∉ (added past).map (·.1) := fun hmem =>
  Nat.lt_irrefl _ (h.lt next ((added_sublist past).subset hmem))

theorem fresh_list (h : Names next past) : next ∉ (enrollments past).map (·.2) := fun hmem =>
  Nat.lt_irrefl _ (h.lt next ((enrollments_sublist past).subset hmem))

end Names

/-! ### Roots and guards -/

/-- The guard that owns a root. -/
def owning (id : RootId) : Guard := ⟨some id⟩

theorem owning_injective : Function.Injective owning := fun _ _ h =>
  Option.some.inj (congrArg Guard.id h)

/-- The registered roots are those somebody owns, and the guards own those that nobody has taken
over. -/
structure Roots (roots : List (RootId × Holder)) (guards : List Guard) (past : List Event) :
    Prop where
  roots : roots = (added past).filter (Stands past ·.1)
  guards : guards = (((added past).map (·.1)).filter (Armed past)).map owning
  dropped : ∀ id, .dropped id ∈ past → id ∈ (added past).map (·.1)
  disarmed : ∀ id, .disarmed id ∈ past → id ∈ (added past).map (·.1)
  removed : ∀ id, .removed id ∈ past → .disarmed id ∈ past
  once : ∀ id, .dropped id ∈ past → .disarmed id ∉ past

theorem armed_dropped : Armed (.dropped id :: past) x ↔ x ≠ id ∧ Armed past x := by
  simp [Armed, and_assoc]

theorem armed_disarmed : Armed (.disarmed id :: past) x ↔ x ≠ id ∧ Armed past x := by
  simp [Armed, and_left_comm]

theorem armed_removed : Armed (.removed id :: past) x ↔ Armed past x := by simp [Armed]

theorem stands_rooted : Stands (.rooted id holder :: past) x ↔ Stands past x := by
  simp [Stands, Armed, Owed]

/-- A guard that goes out of scope takes its own root with it. -/
theorem stands_dropped (harmed : Armed past id) :
    Stands (.dropped id :: past) x ↔ x ≠ id ∧ Stands past x := by
  by_cases hx : x = id
  · subst hx
    simp [Stands, Armed, Owed, harmed.2]
  · simp [Stands, Armed, Owed, hx]

theorem stands_removed (howed : Owed past id) :
    Stands (.removed id :: past) x ↔ x ≠ id ∧ Stands past x := by
  by_cases hx : x = id
  · subst hx
    simp [Stands, Armed, Owed, howed.1]
  · simp [Stands, Armed, Owed, hx]

namespace Roots

variable {roots : List (RootId × Holder)} {guards : List Guard}

theorem armed_of_notMem (h : Roots roots guards past) (hid : id ∉ (added past).map (·.1)) :
    Armed past id :=
  ⟨fun hmem => hid (h.dropped id hmem), fun hmem => hid (h.disarmed id hmem)⟩

/-- A name that is taken over stands for its root from then on. -/
theorem stands_disarmed (h : Roots roots guards past) (harmed : Armed past id) :
    Stands (.disarmed id :: past) x ↔ Stands past x := by
  by_cases hx : x = id
  · subst hx
    have hremoved : .removed x ∉ past := fun hmem => harmed.2 (h.removed x hmem)
    exact iff_of_true (.inr ⟨List.mem_cons_self, by simpa using hremoved⟩) (.inl harmed)
  · simp [Stands, Armed, Owed, hx]

theorem any_iff (h : Roots roots guards past) :
    roots.any (·.1 == id) = true ↔ id ∈ (added past).map (·.1) ∧ Stands past id := by
  simp only [h.roots, List.any_eq_true, List.mem_filter, beq_iff_eq, decide_eq_true_eq,
    List.mem_map]
  constructor
  · rintro ⟨p, ⟨hp, hstands⟩, rfl⟩
    exact ⟨⟨p, hp, rfl⟩, hstands⟩
  · rintro ⟨⟨p, hp, rfl⟩, hstands⟩
    exact ⟨p, ⟨hp, hstands⟩, rfl⟩

theorem mem_guards (h : Roots roots guards past) {guard : Guard} :
    guard ∈ guards ↔ ∃ id, guard = owning id ∧ id ∈ (added past).map (·.1) ∧ Armed past id := by
  simp only [h.guards, List.mem_map (f := owning), List.mem_filter, decide_eq_true_eq]
  constructor
  · rintro ⟨id, ⟨hid, harmed⟩, rfl⟩
    exact ⟨id, rfl, hid, harmed⟩
  · rintro ⟨id, rfl, hid, harmed⟩
    exact ⟨id, ⟨hid, harmed⟩, rfl⟩

/-- The roots that stand are those from before, without one. -/
theorem filter_ne (h : Roots roots guards past) {past' : List Event}
    (hadded : added past' = added past)
    (hstands : ∀ x, Stands past' x ↔ x ≠ id ∧ Stands past x) :
    roots.filter (·.1 != id) = (added past').filter (Stands past' ·.1) := by
  rw [h.roots, List.filter_filter, hadded]
  refine List.filter_congr fun p _ => ?_
  rw [Bool.eq_iff_iff]
  simp [hstands]

/-- So are the guards. -/
theorem erase_owning (h : Roots roots guards past) (hnodup : ((added past).map (·.1)).Nodup)
    {past' : List Event} (hadded : added past' = added past)
    (harmed : ∀ x, Armed past' x ↔ x ≠ id ∧ Armed past x) :
    guards.erase (owning id) =
      (((added past').map (·.1)).filter (Armed past')).map owning := by
  rw [h.guards, ← List.map_erase owning_injective, (hnodup.filter _).erase_eq_filter,
    List.filter_filter, hadded]
  congr 1
  refine List.filter_congr fun x _ => ?_
  rw [Bool.eq_iff_iff]
  simp [harmed]

theorem root (h : Roots roots guards past) (hid : id ∉ (added past).map (·.1)) (holder : Holder) :
    Roots ((id, holder) :: roots) (owning id :: guards) (.rooted id holder :: past) := by
  have harmed := h.armed_of_notMem hid
  have hsame : ∀ x, Armed (.rooted id holder :: past) x ↔ Armed past x := fun x => by simp [Armed]
  have hadded : added (.rooted id holder :: past) = (id, holder) :: added past := rfl
  refine ⟨?_, ?_, ?_, ?_, ?_, ?_⟩
  · rw [hadded, List.filter_cons_of_pos (by simpa [stands_rooted] using .inl harmed), h.roots]
    simp only [stands_rooted]
  · rw [hadded, List.map_cons, List.filter_cons_of_pos (by simpa [hsame] using harmed),
      List.map_cons, h.guards]
    simp only [hsame]
  · exact fun x hx => List.mem_cons_of_mem _ (h.dropped x (by simpa using hx))
  · exact fun x hx => List.mem_cons_of_mem _ (h.disarmed x (by simpa using hx))
  · exact fun x hx => List.mem_cons_of_mem _ (h.removed x (by simpa using hx))
  · exact fun x hx => by simpa using h.once x (by simpa using hx)

theorem drop (h : Roots roots guards past) (hnodup : ((added past).map (·.1)).Nodup)
    (hid : id ∈ (added past).map (·.1)) (harmed : Armed past id) :
    Roots (roots.filter (·.1 != id)) (guards.erase (owning id)) (.dropped id :: past) := by
  refine ⟨h.filter_ne rfl fun x => stands_dropped harmed,
    h.erase_owning hnodup rfl fun x => armed_dropped, ?_, ?_, ?_, ?_⟩
  · rintro x (_ | ⟨_, hx⟩)
    · exact hid
    · exact h.dropped x hx
  · exact fun x hx => h.disarmed x (by simpa using hx)
  · exact fun x hx => List.mem_cons_of_mem _ (h.removed x (by simpa using hx))
  · rintro x (_ | ⟨_, hx⟩)
    · simpa using harmed.2
    · simpa using h.once x hx

theorem disarm (h : Roots roots guards past) (hnodup : ((added past).map (·.1)).Nodup)
    (hid : id ∈ (added past).map (·.1)) (harmed : Armed past id) :
    Roots roots (guards.erase (owning id)) (.disarmed id :: past) := by
  refine ⟨?_, h.erase_owning hnodup rfl fun x => armed_disarmed, ?_, ?_, ?_, ?_⟩
  · rw [h.roots]
    simp only [h.stands_disarmed harmed]
    rfl
  · exact fun x hx => h.dropped x (by simpa using hx)
  · rintro x (_ | ⟨_, hx⟩)
    · exact hid
    · exact h.disarmed x hx
  · exact fun x hx => List.mem_cons_of_mem _ (h.removed x (by simpa using hx))
  · intro x hx hdisarmed
    have hx : .dropped x ∈ past := by simpa using hx
    rcases List.mem_cons.1 hdisarmed with heq | hdisarmed
    · cases heq
      exact harmed.1 hx
    · exact h.once x hx hdisarmed

theorem remove (h : Roots roots guards past) (howed : Owed past id) :
    Roots (roots.filter (·.1 != id)) guards (.removed id :: past) := by
  refine ⟨h.filter_ne rfl fun x => stands_removed howed, ?_, ?_, ?_, ?_, ?_⟩
  · rw [h.guards]
    simp only [armed_removed]
    rfl
  · exact fun x hx => h.dropped x (by simpa using hx)
  · exact fun x hx => h.disarmed x (by simpa using hx)
  · rintro x (_ | ⟨_, hx⟩)
    · exact List.mem_cons_of_mem _ howed.1
    · exact List.mem_cons_of_mem _ (h.removed x hx)
  · exact fun x hx => by simpa using h.once x (by simpa using hx)

/-- What happens to allocation lists is nothing to roots. -/
theorem keep (h : Roots roots guards past) (he : e.OfList) : Roots roots guards (e :: past) := by
  have hadded : added (e :: past) = added past := by
    cases e with
    | enrolled | retired => rfl
    | _ => cases he
  have hmem : ∀ e' : Event, ¬ e'.OfList → (e' ∈ e :: past ↔ e' ∈ past) := by
    intro e' he'
    rw [List.mem_cons, or_iff_right]
    rintro rfl
    exact he' he
  have hdropped : ∀ x, .dropped x ∈ e :: past ↔ .dropped x ∈ past := fun x => hmem _ not_false
  have hdisarmed : ∀ x, .disarmed x ∈ e :: past ↔ .disarmed x ∈ past := fun x => hmem _ not_false
  have hremoved : ∀ x, .removed x ∈ e :: past ↔ .removed x ∈ past := fun x => hmem _ not_false
  have harmed : ∀ x, Armed (e :: past) x ↔ Armed past x := fun x => by
    rw [Armed, Armed, hdropped, hdisarmed]
  have hstands : ∀ x, Stands (e :: past) x ↔ Stands past x := fun x => by
    rw [Stands, Stands, Owed, Owed, harmed, hdisarmed, hremoved]
  constructor
  · simp only [hadded, hstands]
    exact h.roots
  · simp only [hadded, harmed]
    exact h.guards
  · simpa only [hadded, hdropped] using h.dropped
  · simpa only [hadded, hdisarmed] using h.disarmed
  · simpa only [hremoved, hdisarmed] using h.removed
  · simpa only [hdropped, hdisarmed] using h.once

end Roots

/-! ### Allocation lists and marks -/

/-- The allocation lists are those that have not been taken out, they are counted, and the threads
keep in mind what they have done. If only the threads themselves have taken out their lists, a
thread has a list in mind exactly if it has one. -/
structure Lists (ids : List StorageId) (mutators : Nat) (marks : ThreadId → Option StorageId)
    (past : List Event) : Prop where
  lists : ids = ((enrollments past).map (·.2)).filter (· ∉ retirements past)
  counted : mutators = ids.length
  marks : ∀ t, marks t = mark t past
  known : ∀ s ∈ retirements past, s ∈ (enrollments past).map (·.2)
  homely : Homely past → ∀ t s, mark t past = some s ↔ (t, s) ∈ enrollments past ∧
    s ∉ retirements past

namespace Lists

variable {ids : List StorageId} {mutators : Nat} {marks marks' : ThreadId → Option StorageId}

theorem mem_ids (h : Lists ids mutators marks past) :
    s ∈ ids ↔ s ∈ (enrollments past).map (·.2) ∧ s ∉ retirements past := by
  rw [h.lists, List.mem_filter, decide_eq_true_eq]

theorem enroll (h : Lists ids mutators marks past) (hs : s ∉ (enrollments past).map (·.2))
    (hmark : marks t = none) (hmarks : ∀ u, marks' u = if u = t then some s else marks u) :
    Lists (s :: ids) (mutators + 1) marks' (.enrolled t s :: past) := by
  have hout : enrollments (.enrolled t s :: past) = (t, s) :: enrollments past := rfl
  have hretired : retirements (.enrolled t s :: past) = retirements past := rfl
  have hfresh : s ∉ retirements past := fun hmem => hs (h.known s hmem)
  refine ⟨?_, by rw [h.counted, List.length_cons], fun u => ?_, ?_, fun hhomely u x => ?_⟩
  · rw [hout, hretired, List.map_cons, List.filter_cons_of_pos (by simpa using hfresh), h.lists]
  · rw [hmarks, h.marks, mark]
    simp only [eq_comm]
  · exact fun x hx => List.mem_cons_of_mem _ (h.known x hx)
  · have hpast : Homely past := by
      intro v y hy
      rcases List.mem_cons.1 (hhomely v y (List.mem_cons_of_mem _ hy)) with heq | hmem
      · cases heq
        exact absurd (mem_retirements.2 ⟨_, hy⟩) hfresh
      · exact hmem
    rw [h.marks] at hmark
    rw [mark, hout, hretired, List.mem_cons, Prod.mk.injEq]
    split
    · rename_i heq
      subst heq
      constructor
      · rintro ⟨⟩
        exact ⟨.inl ⟨rfl, rfl⟩, hfresh⟩
      · rintro ⟨⟨-, rfl⟩ | hmem, hx⟩
        · rfl
        -- a list from before would be one the thread has in mind
        · have hheld := (h.homely hpast t x).2 ⟨hmem, hx⟩
          rw [hmark] at hheld
          cases hheld
    · rename_i hne
      rw [h.homely hpast u x, or_iff_right fun heq => hne heq.1.symm]

theorem retire (h : Lists ids mutators marks past)
    (hnodup : ((enrollments past).map (·.2)).Nodup) (hs : s ∈ ids)
    (hmarks : ∀ u, marks' u = if u = t then none else marks u) :
    Lists (ids.filter (· != s)) (mutators - 1) marks' (.retired t s :: past) := by
  have hout : enrollments (.retired t s :: past) = enrollments past := rfl
  have hretired : retirements (.retired t s :: past) = s :: retirements past := rfl
  obtain ⟨hknown, hstanding⟩ := h.mem_ids.1 hs
  refine ⟨?_, ?_, fun u => ?_, ?_, fun hhomely u x => ?_⟩
  · rw [h.lists, List.filter_filter, hout, hretired]
    refine List.filter_congr fun x _ => ?_
    rw [Bool.eq_iff_iff]
    simp
  · have hids : ids.Nodup := by
      rw [h.lists]
      exact hnodup.filter _
    rw [← hids.erase_eq_filter, List.length_erase_of_mem hs, h.counted]
  · rw [hmarks, h.marks, mark]
    simp only [eq_comm]
  · rintro x (_ | ⟨_, hx⟩)
    · exact hknown
    · exact h.known x hx
  · have hpast : Homely past := fun v y hy => hhomely v y (List.mem_cons_of_mem _ hy)
    have hmine : (t, s) ∈ enrollments past := hhomely t s List.mem_cons_self
    have hheld := (h.homely hpast t s).2 ⟨hmine, hstanding⟩
    rw [mark, hout, hretired, List.mem_cons, not_or]
    split
    · rename_i heq
      subst heq
      refine iff_of_false (by simp) ?_
      rintro ⟨hmem, hne, hx⟩
      have hother := (h.homely hpast t x).2 ⟨hmem, hx⟩
      rw [hheld] at hother
      exact hne (Option.some.inj hother).symm
    · rename_i hne
      rw [h.homely hpast u x]
      refine ⟨fun ⟨hmem, hx⟩ => ⟨hmem, ?_, hx⟩, fun ⟨hmem, _, hx⟩ => ⟨hmem, hx⟩⟩
      -- no list belongs to two threads
      rintro rfl
      have hsame := List.inj_on_of_nodup_map hnodup hmem hmine rfl
      exact hne (congrArg Prod.fst hsame).symm

/-- What happens to roots is nothing to allocation lists. -/
theorem keep (h : Lists ids mutators marks past) (he : ¬ e.OfList) :
    Lists ids mutators marks (e :: past) := by
  have hhomely : Homely (e :: past) → Homely past := fun hhomely t s hmem => by
    have hout := hhomely t s (List.mem_cons_of_mem _ hmem)
    cases e with
    | enrolled | retired => exact absurd trivial he
    | _ => exact hout
  cases e with
  | enrolled | retired => exact absurd trivial he
  | _ => exact ⟨h.lists, h.counted, h.marks, h.known, fun hall => h.homely (hhomely hall)⟩

/-- Only what threads have in mind counts. -/
theorem of_marks (h : Lists ids mutators marks past) (hmarks : ∀ t, marks' t = marks t) :
    Lists ids mutators marks' past :=
  { h with marks := fun t => (hmarks t).trans (h.marks t) }

end Lists

end past

/-! ### Calls -/

/-- What is known of names, roots and allocation lists. -/
structure Kept (r : Registry) : Prop where
  names : Names r.collector.nextId r.past
  roots : Roots r.collector.roots r.guards r.past
  lists : Lists (r.collector.storages.map (·.id)) r.collector.sync.mutators
    (fun t => (r.world.thread t).storage) r.past

/-- A name for each root that is to be removed, a guard for each that is given up, and threads and
allocation lists that there are. -/
def Op.Allowed (r : Registry) : Op → Prop
  | .root _ | .spawn => True
  | .drop guard | .disarm guard => guard ∈ r.guards
  | .remove id => .disarmed id ∈ r.past
  | .enroll t => t < r.world.threads.size
  | .retire t s => t < r.world.threads.size ∧ s ∈ (enrollments r.past).map (·.2)
  | .work op => op.AtHeap

variable {r : Registry} {guard : Guard} {id : RootId} {t : ThreadId} {s : StorageId} {op : Op}

namespace Kept

theorem new (settings : CollectorSettings) (isolates : IsolateSettings) :
    Kept { world := { store := { collector := .new settings, isolates } } } where
  names := ⟨by simp [handedOut], List.nodup_nil⟩
  roots := ⟨rfl, rfl, by simp, by simp, by simp, by simp⟩
  lists := ⟨rfl, rfl, fun t => congrArg Thread.storage (World.thread_of_size_le (Nat.zero_le t)),
    by simp [retirements], by simp [mark, enrollments]⟩

theorem removeRoot_eq (h : r.Kept) (hid : id ∈ (added r.past).map (·.1)) :
    r.collector.removeRoot id =
      if Stands r.past id then .ok (r.collector.without id)
      else .error (.rootNotRegistered id) := by
  rw [Collector.removeRoot]
  by_cases hstands : Stands r.past id
  · rw [if_pos hstands, if_pos (h.roots.any_iff.2 ⟨hid, hstands⟩)]
    rfl
  · rw [if_neg hstands, if_neg fun hany => hstands (h.roots.any_iff.1 hany).2]

/-- A guard that goes out of scope takes its root along. -/
theorem perform_drop (h : r.Kept) (hguard : guard ∈ r.guards) :
    ∃ id, guard = owning id ∧ id ∈ (added r.past).map (·.1) ∧ Armed r.past id ∧
      r.perform (.drop guard) =
        ({ r.withCollector (r.collector.without id) with
          guards := r.guards.erase guard, past := .dropped id :: r.past }, none) := by
  obtain ⟨id, rfl, hid, harmed⟩ := h.roots.mem_guards.1 hguard
  have hremove := h.removeRoot_eq hid
  rw [if_pos (.inl harmed)] at hremove
  refine ⟨id, rfl, hid, harmed, ?_⟩
  have hrelease : (owning id).release r.collector = .ok (r.collector.without id) := hremove
  rw [perform, hrelease]
  rfl

theorem perform_disarm (h : r.Kept) (hguard : guard ∈ r.guards) :
    ∃ id, guard = owning id ∧ id ∈ (added r.past).map (·.1) ∧ Armed r.past id ∧
      r.perform (.disarm guard) =
        ({ r with guards := r.guards.erase guard, past := .disarmed id :: r.past }, none) := by
  obtain ⟨id, rfl, hid, harmed⟩ := h.roots.mem_guards.1 hguard
  exact ⟨id, rfl, hid, harmed, rfl⟩

/-- A name that was taken over serves once. -/
theorem perform_remove (h : r.Kept) (hid : .disarmed id ∈ r.past) :
    r.perform (.remove id) =
      if .removed id ∈ r.past then (r, some (.rootNotRegistered id))
      else ({ r.withCollector (r.collector.without id) with past := .removed id :: r.past },
        none) := by
  have hremove := h.removeRoot_eq (h.roots.disarmed id hid)
  by_cases hremoved : .removed id ∈ r.past
  · rw [if_neg fun hstands => hstands.elim (fun harmed => harmed.2 hid) fun howed =>
      howed.2 hremoved] at hremove
    rw [if_pos hremoved, perform, hremove]
  · rw [if_pos (.inr ⟨hid, hremoved⟩)] at hremove
    rw [if_neg hremoved, perform, hremove]
    rfl

end Kept

/-- A thread without an allocation list gets one. -/
theorem perform_enroll (ht : t < r.world.threads.size)
    (hstorage : (r.world.thread t).storage = none) :
    ∃ w, r.perform (.enroll t) =
        ({ r with world := w, past := .enrolled t r.collector.nextId :: r.past }, none) ∧
      w.store.collector = r.collector.enroll.1 ∧
      ∀ u, (w.thread u).storage =
        if u = t then some r.collector.nextId else (r.world.thread u).storage := by
  let w := r.world.setControl t .enrolling
  have hassign : r.world.assign t .enroll = w := by
    rw [World.assign, hstorage]
    rfl
  have hasked := World.becomes_setControl (w := r.world) rfl ht .enrolling
  have hcontrol : w.control t = .enrolling := congrArg Thread.control hasked.mine
  obtain ⟨c, hstep⟩ := World.step_enrolling hcontrol
  have ht' : t < w.threads.size := hasked.size ▸ ht
  have hregistered := (World.becomes_register ht').setControl ht' c
  rw [← hstep] at hregistered
  have hmine : ((w.step t).thread t).storage = some r.collector.nextId :=
    congrArg Thread.storage hregistered.mine
  refine ⟨w.step t, ?_, ?_, fun u => ?_⟩
  · simp only [perform, hassign, hcontrol, hmine]
    rfl
  · rw [hstep]
    rfl
  · split
    · rename_i hu
      rw [hu, hmine]
    · rename_i hu
      rw [hregistered.others u hu, hasked.others u hu]

/-- A thread that has one in mind is refused. -/
theorem perform_enroll_again (ht : t < r.world.threads.size)
    (hstorage : (r.world.thread t).storage ≠ none) :
    ∃ w, r.perform (.enroll t) = ({ r with world := w }, some (.secondStorage (t + 1))) ∧
      w.store = r.world.store ∧ ∀ u, (w.thread u).storage = (r.world.thread u).storage := by
  let w := r.world.setControl t (.finished (.panicked (.secondStorage (t + 1))))
  have hassign : r.world.assign t .enroll = w := by
    rw [World.assign, if_pos (Option.isSome_iff_ne_none.2 hstorage)]
  have hrefused := World.becomes_setControl (w := r.world) rfl ht
    (.finished (.panicked (.secondStorage (t + 1))))
  have hcontrol : w.control t = .finished (.panicked (.secondStorage (t + 1))) :=
    congrArg Thread.control hrefused.mine
  refine ⟨w, ?_, rfl, fun u => ?_⟩
  · simp only [perform, hassign, hcontrol]
  · by_cases hu : u = t
    · have hmine := congrArg Thread.storage hrefused.mine
      rw [hu]
      exact hmine
    · rw [hrefused.others u hu]

/-- An allocation list that is there is taken out. -/
theorem perform_retire (ht : t < r.world.threads.size)
    (hs : s ∈ r.collector.storages.map (·.id)) :
    ∃ w g, r.perform (.retire t s) =
        ({ r with world := w, past := .retired t s :: r.past }, none) ∧
      r.collector.retire s = .ok g ∧ w.store.collector = g ∧
      ∀ u, (w.thread u).storage = if u = t then none else (r.world.thread u).storage := by
  obtain ⟨g, hg⟩ := Collector.retire_of_mem hs
  let w₁ : World := { r.world with store := { r.world.store with collector := g } }
  let w := w₁.modifyThread t fun th => { th with storage := none }
  have hdischarge : r.world.discharge t s = .ok w := by
    have hretire : r.world.store.collector.retire s = .ok g := hg
    rw [World.discharge, hretire]
    rfl
  refine ⟨w, g, ?_, hg, rfl, fun u => ?_⟩
  · rw [perform, hdischarge]
    rfl
  · split
    · rename_i hu
      have ht' : t < w₁.threads.size := ht
      rw [hu, World.thread_modifyThread_self _ ht']
    · rename_i hu
      rw [World.thread_modifyThread_of_ne _ hu]
      rfl

/-- One that is not there cannot be taken out, and nothing changes. -/
theorem perform_retire_again (hs : s ∉ r.collector.storages.map (·.id)) :
    r.perform (.retire t s) = (r, some (.storageRemovedTwice s)) := by
  have hdischarge : r.world.discharge t s = .error (.storageRemovedTwice s) := by
    have hretire : r.world.store.collector.retire s = .error (.storageRemovedTwice s) :=
      Collector.retire_of_notMem hs
    rw [World.discharge, hretire]
    rfl
  rw [perform, hdischarge]

/-- What is known concerns the collector and the marks of threads only. -/
theorem Kept.of_world {w : World} {guards : List Guard} {past : List Event} {g : Collector}
    {marks : ThreadId → Option StorageId} (hw : w.store.collector = g)
    (hmarks : ∀ u, (w.thread u).storage = marks u) (hnames : Names g.nextId past)
    (hroots : Roots g.roots guards past)
    (hlists : Lists (g.storages.map (·.id)) g.sync.mutators marks past) :
    Kept ⟨w, guards, past⟩ := by
  subst hw
  exact ⟨hnames, hroots, hlists.of_marks hmarks⟩

/-- Every call keeps what is known. -/
theorem Kept.perform (h : r.Kept) (hop : op.Allowed r) : (r.perform op).1.Kept := by
  cases op with
  | root holder =>
    exact ⟨h.names.draw rfl, h.roots.root h.names.fresh_root holder, h.lists.keep not_false⟩
  | drop guard =>
    obtain ⟨id, rfl, hid, harmed, heq⟩ := h.perform_drop hop
    rw [heq]
    exact ⟨h.names.keep rfl, h.roots.drop h.names.nodup_added hid harmed, h.lists.keep not_false⟩
  | disarm guard =>
    obtain ⟨id, rfl, hid, harmed, heq⟩ := h.perform_disarm hop
    rw [heq]
    exact ⟨h.names.keep rfl, h.roots.disarm h.names.nodup_added hid harmed, h.lists.keep not_false⟩
  | remove id =>
    rw [h.perform_remove hop]
    split
    · exact h
    · rename_i hremoved
      exact ⟨h.names.keep rfl, h.roots.remove ⟨hop, hremoved⟩, h.lists.keep not_false⟩
  | spawn =>
    -- a thread that is not there yet has nothing in mind, and neither has a new one
    refine ⟨h.names, h.roots, h.lists.of_marks fun t => ?_⟩
    show ((r.world.add {}).1.thread t).storage = _
    rw [World.thread_add]
    split
    · rename_i ht
      rw [World.thread_of_size_le ht.ge]
    · rfl
  | enroll t =>
    by_cases hstorage : (r.world.thread t).storage = none
    · obtain ⟨w, heq, hw, hmarks⟩ := perform_enroll hop hstorage
      rw [heq]
      exact .of_world hw hmarks (h.names.draw rfl) (h.roots.keep trivial)
        (h.lists.enroll h.names.fresh_list hstorage fun u => rfl)
    · obtain ⟨w, heq, hw, hmarks⟩ := perform_enroll_again hop hstorage
      rw [heq]
      exact .of_world (congrArg Store.collector hw) hmarks h.names h.roots h.lists
  | retire t s =>
    by_cases hs : s ∈ r.collector.storages.map (·.id)
    · obtain ⟨w, g, heq, hg, hw, hmarks⟩ := perform_retire hop.1 hs
      obtain ⟨st, -, -, rfl⟩ := Collector.Tidy.retire_cases hg
      have hlists := h.lists.retire h.names.nodup_enrollments hs hmarks
      rw [List.filter_map] at hlists
      rw [heq]
      exact .of_world hw (fun u => rfl) (h.names.keep rfl) (h.roots.keep trivial) hlists
    · rw [perform_retire_again hs]
      exact h
  | work op =>
    obtain ⟨hnext, hroots, hids, hsync⟩ := Collector.Operation.AtHeap.same hop r.collector
    refine .of_world rfl (fun u => rfl) ?_ ?_ ?_
    · exact hnext ▸ h.names
    · exact hroots ▸ h.roots
    · rw [hids, hsync]
      exact h.lists

/-! ### Runs -/

/-- The states of all runs of allowed calls, panics included. -/
inductive Reachable : Registry → Prop
  | new (settings : CollectorSettings) (isolates : IsolateSettings) :
      Reachable { world := { store := { collector := .new settings, isolates } } }
  | call {r : Registry} {op : Op} : Reachable r → op.Allowed r → Reachable (r.perform op).1

theorem Reachable.kept (h : r.Reachable) : r.Kept := by
  induction h with
  | new settings isolates => exact .new settings isolates
  | call _ hop ih => exact ih.perform hop

/-- What there is, and what every call does. -/
structure Books (r : Registry) : Prop where
  /-- No name of a root or an allocation list is handed out twice. -/
  distinct : (handedOut r.past).Nodup
  /-- The registered roots are those whose guard is armed and alive, and those whose name has been
  taken over and not been used. -/
  roots : r.collector.roots = (added r.past).filter (Stands r.past ·.1)
  rootCount : r.collector.rootCount = ((added r.past).filter (Stands r.past ·.1)).length
  /-- Every guard that is alive owns a root of its own. -/
  guards : r.guards = (((added r.past).map (·.1)).filter (Armed r.past)).map owning
  /-- The allocation lists are those that have not been taken out, and they are counted. -/
  lists : r.collector.storages.map (·.id) =
    ((enrollments r.past).map (·.2)).filter (· ∉ retirements r.past)
  mutators : r.collector.sync.mutators = r.collector.storages.length
  /-- What a thread has in mind is what it has done. -/
  marks : ∀ t, (r.world.thread t).storage = mark t r.past
  /-- If threads have taken out nothing but their own allocation lists, a thread has a list in mind
  exactly if it has that list. -/
  held : Homely r.past → ∀ t s, (r.world.thread t).storage = some s ↔
    (t, s) ∈ enrollments r.past ∧ s ∉ retirements r.past
  /-- A new root gets a new name and a guard of its own. -/
  root : ∀ holder, r.perform (.root holder) =
    ({ r.withCollector (r.collector.addRoot holder).1 with
      guards := owning r.collector.nextId :: r.guards
      past := .rooted r.collector.nextId holder :: r.past }, none)
  /-- A guard that goes out of scope removes its own root and nothing else. -/
  drop : ∀ guard ∈ r.guards, ∃ id, guard = owning id ∧ id ∈ r.collector.roots.map (·.1) ∧
    r.perform (.drop guard) =
      ({ r.withCollector (r.collector.without id) with
        guards := r.guards.erase guard, past := .dropped id :: r.past }, none)
  /-- To disarm a guard is nothing to the collector. -/
  disarm : ∀ guard ∈ r.guards, ∃ id, guard = owning id ∧ r.perform (.disarm guard) =
    ({ r with guards := r.guards.erase guard, past := .disarmed id :: r.past }, none)
  /-- A name that has been taken over removes its root once; then nothing changes. -/
  remove : ∀ id, .disarmed id ∈ r.past → r.perform (.remove id) =
    if .removed id ∈ r.past then (r, some (.rootNotRegistered id))
    else ({ r.withCollector (r.collector.without id) with past := .removed id :: r.past }, none)
  /-- A thread that has no allocation list in mind gets one with a new name. -/
  enroll : ∀ t < r.world.threads.size, mark t r.past = none →
    ∃ w, r.perform (.enroll t) =
        ({ r with world := w, past := .enrolled t r.collector.nextId :: r.past }, none) ∧
      w.store.collector = r.collector.enroll.1
  /-- Any other thread is refused, and nothing changes but that thread's outcome. -/
  enrollAgain : ∀ t < r.world.threads.size, mark t r.past ≠ none →
    ∃ w, r.perform (.enroll t) = ({ r with world := w }, some (.secondStorage (t + 1))) ∧
      w.store = r.world.store ∧ ∀ u, (w.thread u).storage = (r.world.thread u).storage
  /-- If threads have taken out nothing but their own allocation lists, exactly those get one that
  have none. -/
  enrollIff : Homely r.past → ∀ t < r.world.threads.size, (r.perform (.enroll t)).2 = none ↔
    ∀ s, (t, s) ∈ enrollments r.past → s ∈ retirements r.past
  /-- An allocation list is taken out once; then nothing changes. -/
  retire : ∀ t < r.world.threads.size, ∀ s ∈ (enrollments r.past).map (·.2),
    (s ∈ retirements r.past → r.perform (.retire t s) = (r, some (.storageRemovedTwice s))) ∧
    (s ∉ retirements r.past → ∃ w g, r.collector.retire s = .ok g ∧ w.store.collector = g ∧
      r.perform (.retire t s) = ({ r with world := w, past := .retired t s :: r.past }, none))

theorem Kept.books (h : r.Kept) : r.Books where
  distinct := h.names.nodup
  roots := h.roots.roots
  rootCount := congrArg List.length h.roots.roots
  guards := h.roots.guards
  lists := h.lists.lists
  mutators := h.lists.counted.trans (List.length_map _)
  marks := h.lists.marks
  held hhomely t s := by
    rw [h.lists.marks]
    exact h.lists.homely hhomely t s
  root holder := rfl
  drop guard hguard := by
    obtain ⟨id, rfl, hid, harmed, heq⟩ := h.perform_drop hguard
    refine ⟨id, rfl, ?_, heq⟩
    obtain ⟨p, hp, hid'⟩ := List.any_eq_true.1 (h.roots.any_iff.2 ⟨hid, .inl harmed⟩)
    exact List.mem_map.2 ⟨p, hp, by simpa using hid'⟩
  disarm guard hguard := by
    obtain ⟨id, rfl, -, -, heq⟩ := h.perform_disarm hguard
    exact ⟨id, rfl, heq⟩
  remove id hid := h.perform_remove hid
  enroll t ht hmark := by
    obtain ⟨w, heq, hw, -⟩ := perform_enroll ht ((h.lists.marks t).trans hmark)
    exact ⟨w, heq, hw⟩
  enrollAgain t ht hmark := perform_enroll_again ht fun hnone =>
    hmark ((h.lists.marks t).symm.trans hnone)
  enrollIff hhomely t ht := by
    have hheld := h.lists.homely hhomely t
    rw [← h.lists.marks t] at hheld
    -- a thread that has nothing in mind has no list, and any other has the one it has in mind
    by_cases hstorage : (r.world.thread t).storage = none
    · obtain ⟨w, heq, -⟩ := perform_enroll ht hstorage
      refine iff_of_true (congrArg Prod.snd heq) fun s hs => ?_
      by_contra hstanding
      have hsome := (hheld s).2 ⟨hs, hstanding⟩
      rw [hstorage] at hsome
      cases hsome
    · obtain ⟨w, heq, -⟩ := perform_enroll_again ht hstorage
      obtain ⟨s, hsome⟩ := Option.ne_none_iff_exists'.1 hstorage
      obtain ⟨hs, hstanding⟩ := (hheld s).1 hsome
      refine iff_of_false (fun hnone => ?_) fun hall => hstanding (hall s hs)
      rw [heq] at hnone
      cases hnone
  retire t ht s hs := by
    constructor
    · intro hretired
      exact perform_retire_again fun hmem => (h.lists.mem_ids.1 hmem).2 hretired
    · intro hstanding
      obtain ⟨w, g, heq, hg, hw, -⟩ := perform_retire ht (h.lists.mem_ids.2 ⟨hs, hstanding⟩)
      exact ⟨w, g, hg, hw, heq⟩

/-! ### Calls one after the other -/

instance : DecidablePred Collector.Operation.AtHeap
  | .make _ _ | .makeImmortal _ | .collect _ | .setLimit _ | .write _ _ | .clearRequest =>
      inferInstanceAs (Decidable True)
  | .enroll | .retire _ | .addRoot _ | .removeRoot _ | .setPinned _ _ | .meet _ =>
      inferInstanceAs (Decidable False)

instance (r : Registry) : DecidablePred (Op.Allowed r)
  | .root _ | .spawn => inferInstanceAs (Decidable True)
  | .drop guard | .disarm guard => inferInstanceAs (Decidable (guard ∈ r.guards))
  | .remove id => inferInstanceAs (Decidable (.disarmed id ∈ r.past))
  | .enroll t => inferInstanceAs (Decidable (t < r.world.threads.size))
  | .retire _ _ => inferInstanceAs (Decidable (_ ∧ _))
  | .work op => inferInstanceAs (Decidable op.AtHeap)

/-- The calls are allowed, each where it comes. -/
def AllAllowed (r : Registry) : List Op → Prop
  | [] => True
  | op :: ops => op.Allowed r ∧ AllAllowed (r.perform op).1 ops

instance decidableAllAllowed (r : Registry) : (ops : List Op) → Decidable (r.AllAllowed ops)
  | [] => inferInstanceAs (Decidable True)
  | op :: ops =>
      have := decidableAllAllowed (r.perform op).1 ops
      inferInstanceAs (Decidable (_ ∧ _))

theorem Reachable.calls (h : r.Reachable) {ops : List Op} (hops : r.AllAllowed ops) :
    (ops.foldl (fun r op => (r.perform op).1) r).Reachable := by
  induction ops generalizing r with
  | nil => exact h
  | cons op ops ih => exact ih (h.call hops.1) hops.2

/-- No calls yet. -/
def fresh : Registry := { world := { store := { collector := .new {}, isolates := {} } } }

/-- A thread registers twice and leaves; of two roots one is handed over and removed twice. -/
def handedOver : Registry :=
  [.spawn, .enroll 0, .root .globals, .root (.pinned #[]), .disarm (owning 3), .remove 3,
    .remove 3, .enroll 0, .retire 0 1].foldl (fun r op => (r.perform op).1) fresh

theorem reachable_handedOver : handedOver.Reachable :=
  (Reachable.new {} {}).calls (by decide +kernel)

theorem homely_handedOver : Homely handedOver.past := by
  have hpast : handedOver.past = [.retired 0 1, .removed 3, .disarmed 3, .rooted 3 (.pinned #[]),
    .rooted 2 .globals, .enrolled 0 1] := by decide +kernel
  intro t s hmem
  rw [hpast] at hmem ⊢
  simp only [List.mem_cons, Event.retired.injEq, reduceCtorEq, or_false, List.not_mem_nil] at hmem
  obtain ⟨rfl, rfl⟩ := hmem
  decide

/-- Two threads have an allocation list each, and the second one takes out that of the first. -/
def crossed : Registry :=
  [.spawn, .spawn, .enroll 0, .enroll 1, .retire 1 1].foldl (fun r op => (r.perform op).1) fresh

theorem reachable_crossed : crossed.Reachable := (Reachable.new {} {}).calls (by decide +kernel)

/-- Another collector, without calls. -/
def another : Registry :=
  { world := { store := { collector := .new { allocLimit := 7 }, isolates := {} } } }

end Registry

/-- **The registry.** In every state of every run the names of roots and allocation lists are
distinct, the registered roots are those somebody owns, and calls do what they should or panic and
change nothing. A thread gets an allocation list if it has none in mind. That is so exactly if it
has none, as long as lists are taken out by the threads that have made them. -/
theorem registry_keeps_books {r : Registry} (h : r.Reachable) : r.Books := h.kept.books

/-- The name that was handed over and the list that was left behind are of no more use, the other
root is there, and the thread may come again. -/
theorem registry_keeps_books_handed_over :
    let r := Registry.handedOver
    r.Reachable ∧ r.collector.rootCount = 1 ∧
      r.perform (.remove 3) = (r, some (.rootNotRegistered 3)) ∧
      r.perform (.retire 0 1) = (r, some (.storageRemovedTwice 1)) ∧
      (r.perform (.enroll 0)).2 = none := by
  intro r
  have hbooks := registry_keeps_books Registry.reachable_handedOver
  have hthread : 0 < r.world.threads.size := by decide +kernel
  refine ⟨Registry.reachable_handedOver, by decide +kernel, ?_, ?_, ?_⟩
  · rw [hbooks.remove 3 (by decide +kernel), if_pos (by decide +kernel)]
  · exact (hbooks.retire 0 hthread 1 (by decide +kernel)).1 (by decide +kernel)
  · refine (hbooks.enrollIff Registry.homely_handedOver 0 hthread).2 fun s hs => ?_
    have hmine : Registry.enrollments r.past = [(0, 1)] := by decide +kernel
    rw [hmine, List.mem_singleton] at hs
    obtain rfl : s = 1 := congrArg Prod.snd hs
    decide +kernel

/-- That lists are taken out by the threads that have made them is needed: the second thread has a
list and gets one more, and the first one has none and is refused. And names are distinct in one
collector only. -/
theorem foreign_removal_crosses_marks :
    let r := Registry.crossed
    let names (r : Registry) := Registry.handedOut ((r.perform .spawn).1.perform (.enroll 0)).1.past
    (r.Reachable ∧ r.collector.storages.map (·.id) = [2] ∧
      Registry.enrollments r.past = [(1, 2), (0, 1)] ∧ Registry.retirements r.past = [1]) ∧
    (r.perform (.enroll 1)).2 = none ∧ (r.perform (.enroll 0)).2 = some (.secondStorage 1) ∧
    (¬ ∀ r : Registry, r.Reachable → ∀ t < r.world.threads.size,
      (r.perform (.enroll t)).2 = none ↔
        ∀ s, (t, s) ∈ Registry.enrollments r.past → s ∈ Registry.retirements r.past) ∧
    names .fresh = [1] ∧ names .another = [1] := by
  intro r names
  have henrolled : Registry.enrollments r.past = [(1, 2), (0, 1)] := by decide +kernel
  have hretired : Registry.retirements r.past = [1] := by decide +kernel
  have hgranted : (r.perform (.enroll 1)).2 = none := by decide +kernel
  refine ⟨⟨Registry.reachable_crossed, by decide +kernel, henrolled, hretired⟩, hgranted,
    by decide +kernel, fun hiff => ?_, by decide +kernel, by decide +kernel⟩
  have hgone := (hiff r Registry.reachable_crossed 1 (by decide +kernel)).1 hgranted 2
    (by rw [henrolled]; decide)
  rw [hretired] at hgone
  exact absurd hgone (by decide)

end ScriptCore
