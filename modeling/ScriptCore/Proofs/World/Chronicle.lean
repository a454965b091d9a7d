import Mathlib.Logic.Relation
import ScriptCore.Proofs.Machine.Quiet
import ScriptCore.Proofs.World.Others
import ScriptCore.Proofs.World.Runs

/-!
# Runs with their past

What a thread may do next can depend on what has happened: a pause is ended by whoever began it.
So a run keeps its past.

* `Chronicle`: a world, its host and everything that has happened;
* `Run`: the states of all finite runs from a new machine, under a condition on its acts;
* `Chronicle.Onward`: a run goes on from some state, with what happens meanwhile;
* `stops`: how many pauses of the host are active;
* `Act.Orderly`: threads step when they are ready, the host gives tasks to threads of its own that
  rest and ends pauses that it has begun;
* `During`: what follows while a collection is under way;
* `World.Tended`: what the host does to objects, global names and roots concerns no thread.
-/

namespace ScriptCore

/-- A world with its host and everything that has happened, newest first. -/
structure Chronicle extends Hosted where
  past : List (Hosted × Act) := []

/-- Something happens. -/
def Act.record (c : Chronicle) (a : Act) : Chronicle :=
  ⟨a.apply c.toHosted, (c.toHosted, a) :: c.past⟩

/-- The states of all runs from a new machine whose acts are as they have to be. -/
inductive Run (ok : Chronicle → Act → Prop) : Chronicle → Prop
  | new {collector : CollectorSettings} {isolates : IsolateSettings} {s : Store} :
      Store.new collector isolates = .ok s → Run ok { world := { store := s } }
  | act {c : Chronicle} {a : Act} : Run ok c → ok c a → Run ok (a.record c)

/-! ### Pauses of the host -/

/-- The active pauses of the host after an act, from those before. -/
def Act.stops (h : Hosted) (n : Nat) : Act → Nat
  | .step t => if h.world.control t = .lingering (.pause none) then n + 1 else n
  | .assign _ .pause => if h.world.collecting then n else n + 1
  | .resume => n - 1
  | _ => n

/-- The active pauses of the host. -/
def stops : List (Hosted × Act) → Nat
  | [] => 0
  | (h, a) :: past => a.stops h (stops past)

/-! ### Acts in order -/

/-- What only a registered thread can be told to do.  A thread has one machine at a time. -/
def Task.Orderly (th : Thread) : Task → Prop
  | .safepoint | .run | .call _ _ | .request .collect => th.storage.isSome
  | .equip => th.root = none
  | _ => True

/-- A thread of the host that rests. -/
structure World.Spare (w : World) (t : ThreadId) : Prop where
  known : t < w.threads.size
  host : (w.thread t).role = .host
  rests : w.atRest t = true

/-- Threads step when they are ready, the host gives tasks to threads of its own that rest, and it
ends pauses that it has begun. -/
def Act.Orderly (c : Chronicle) : Act → Prop
  | .step t => c.world.ready t = true
  | .assign t task => c.world.Spare t ∧ task.Orderly (c.world.thread t)
  | .wait t _ _ | .dismiss t | .push t _ | .pop t => c.world.Spare t
  | .resume => 0 < ScriptCore.stops c.past
  | _ => True

/-- The run goes on, and a collection is under way all the time. -/
def During (ok : Chronicle → Act → Prop) : Chronicle → Chronicle → Prop :=
  Relation.ReflTransGen fun c c' => ∃ a, ok c a ∧ c' = a.record c ∧ c'.world.collecting = true

theorem During.run {ok : Chronicle → Act → Prop} {c c' : Chronicle} (h : During ok c c')
    (hc : Run ok c) : Run ok c' := by
  induction h with
  | refl => exact hc
  | tail _ hstep ih =>
    obtain ⟨a, ha, rfl, -⟩ := hstep
    exact ih.act ha

theorem Run.mono {ok ok' : Chronicle → Act → Prop} {c : Chronicle} (h : Run ok c)
    (hok : ∀ c a, ok c a → ok' c a) : Run ok' c := by
  induction h with
  | new hs => exact .new hs
  | act _ ha ih => exact ih.act (hok _ _ ha)

/-- Runs in which every reference that is handed over is live keep the invariant. -/
theorem Run.sound {ok : Chronicle → Act → Prop} {c : Chronicle} (h : Run ok c)
    (hok : ∀ c a, ok c a → a.Given c.toHosted) : c.toHosted.Sound := by
  induction h with
  | new hs => exact Hosted.sound_new hs
  | act _ ha ih => exact Act.sound_given ih (hok _ _ ha)

/-- Acts one after the other, each of them as it has to be. -/
def Act.All (ok : Chronicle → Act → Prop) (c : Chronicle) : List Act → Prop
  | [] => True
  | a :: rest => ok c a ∧ All ok (a.record c) rest

theorem Run.acts {ok : Chronicle → Act → Prop} {c : Chronicle} (h : Run ok c) {acts : List Act}
    (hok : Act.All ok c acts) : Run ok (acts.foldl Act.record c) := by
  induction acts generalizing c with
  | nil => exact h
  | cons a acts ih => exact ih (h.act hok.1) hok.2

/-- The run goes on from one state to the other; the list is what happens meanwhile, newest
first. -/
inductive Chronicle.Onward (ok : Chronicle → Act → Prop) (c₀ : Chronicle) :
    List (Hosted × Act) → Chronicle → Prop
  | here : Onward ok c₀ [] c₀
  | act {since : List (Hosted × Act)} {c : Chronicle} {a : Act} : Onward ok c₀ since c → ok c a →
      Onward ok c₀ ((c.toHosted, a) :: since) (a.record c)

namespace Chronicle.Onward

variable {ok : Chronicle → Act → Prop} {c₀ c c' : Chronicle} {since later : List (Hosted × Act)}

theorem run (h : Onward ok c₀ since c) (hrun : Run ok c₀) : Run ok c := by
  induction h with
  | here => exact hrun
  | act _ ha ih => exact ih.act ha

theorem past_eq (h : Onward ok c₀ since c) : c.past = since ++ c₀.past := by
  induction h with
  | here => rfl
  | @act since c a _ _ ih => rw [Act.record, ih, List.cons_append]

theorem trans (h : Onward ok c₀ since c) (h' : Onward ok c later c') :
    Onward ok c₀ (later ++ since) c' := by
  induction h' with
  | here => exact h
  | act _ ha ih => exact ih.act ha

/-- Acts one after the other. -/
theorem acts {acts : List Act} (hacts : Act.All ok c acts) (h : Onward ok c₀ since c) :
    Onward ok c₀ ((acts.foldl Act.record c).past.take (acts.length + since.length))
      (acts.foldl Act.record c) := by
  induction acts generalizing c since with
  | nil =>
    have htake : c.past.take (0 + since.length) = since := by simp [h.past_eq]
    exact htake.symm ▸ h
  | cons a acts ih =>
    have hrest := ih hacts.2 (h.act hacts.1)
    rwa [show acts.length + ((c.toHosted, a) :: since).length =
      (a :: acts).length + since.length by simp; omega] at hrest

end Chronicle.Onward

/-- The beginning of a run of a machine with default settings. -/
def Chronicle.standard : Chronicle := { world := { store := .standard } }

theorem Run.standard (ok : Chronicle → Act → Prop) : Run ok .standard :=
  .new (show Store.new {} {} = .ok .standard from rfl)

/-! ### What the host does to what is shared -/

/-- The host works on objects, global names, roots or the limit, or the system on its supply of
threads. -/
def Act.tends : Act → Bool
  | .make _ _ | .makeImmortal _ | .pushItem _ _ | .resolve _ _ | .setAttr _ _ _ | .root _
  | .pin _ _ | .unroot _ | .setGlobal _ _ | .library _ | .setLimit _ | .supply _ => true
  | _ => false

/-- Threads and counters are the same, and no object is freed. -/
structure World.Tended (w w' : World) : Prop where
  threads : w'.threads = w.threads
  sync : w'.sync = w.sync
  live : w'.store.live = w.store.live
  storages : w'.storageIds = w.storageIds
  evolves : w.store.heap.Evolves w'.store.heap

theorem World.Tended.refl (w : World) : w.Tended w := ⟨rfl, rfl, rfl, rfl, .refl _⟩

/-- Publishing native functions, one after the other. -/
theorem World.tended_publish (w : World) (fs : List Native) :
    w.Tended { w with store := w.store.publish fs } := by
  induction fs generalizing w with
  | nil => exact .refl w
  | cons f fs ih =>
    let s := (w.store.makeImmortal (.native f)).1.setGlobal f.name
      (.ref (w.store.makeImmortal (.native f)).2)
    have hrest := ih { w with store := s }
    exact ⟨hrest.threads, hrest.sync, hrest.live, hrest.storages,
      (Heap.evolves_alloc _ _).trans hrest.evolves⟩

/-- A new machine has no threads and the globals as its only root. -/
theorem World.tended_new {collector : CollectorSettings} {isolates : IsolateSettings} {s : Store}
    (hs : Store.new collector isolates = .ok s) :
    World.Tended
      { store := { collector := ((Collector.new collector).addRoot .globals).1, isolates } }
      { store := s } := by
  rw [← Store.publish_of_new hs]
  exact World.tended_publish { store := { collector := _, isolates } } _

/-- The host's work on what is shared concerns no thread. -/
theorem Act.tended {a : Act} (ha : a.tends = true) (h : Hosted) :
    h.world.Tended (a.apply h).world := by
  have hedit : ∀ {s : Store}, h.world.store.Edited 0 (fun _ => True) s →
      h.world.store.Quiet s → h.world.Tended (h.withStore s).world := fun he hquiet =>
    ⟨rfl, hquiet.sync, hquiet.live, he.storages, he.evolves⟩
  cases a with
  | make t o => exact ⟨rfl, rfl, rfl, Collector.Tidy.ids_make _ _ _, Heap.evolves_alloc _ _⟩
  | makeImmortal o => exact ⟨rfl, rfl, rfl, rfl, Heap.evolves_alloc _ _⟩
  | pushItem c v => exact hedit (Store.edited_pushItem c trivial) ⟨rfl, rfl⟩
  | resolve c v =>
    simp only [apply]
    split
    · rename_i hr
      exact hedit (Store.edited_resolve hr trivial) ⟨rfl, rfl⟩
    · exact .refl _
  | setAttr receiver name v =>
    simp only [apply]
    split
    · rename_i hc
      exact hedit (Store.edited_attributeChange hc trivial) ⟨rfl, rfl⟩
    · exact .refl _
  | root vs => exact ⟨rfl, rfl, rfl, rfl, .refl _⟩
  | pin id v => exact ⟨rfl, rfl, rfl, rfl, .refl _⟩
  | unroot id =>
    obtain ⟨hsync, hstorages, hlive, -⟩ := World.dropRoot_same h.world id
    refine ⟨World.threads_dropRoot _ _, hsync, hlive, hstorages, ?_⟩
    show h.world.store.heap.Evolves (h.world.dropRoot id).store.heap
    rw [World.heap_dropRoot]
    exact .refl _
  | setGlobal name v => exact ⟨rfl, rfl, rfl, rfl, .refl _⟩
  | library l =>
    simp only [apply, Store.addLibrary]
    cases l.entries with
    | error e => exact .refl _
    | ok fs => exact World.tended_publish _ fs
  | setLimit | supply => exact ⟨rfl, rfl, rfl, rfl, .refl _⟩
  | _ => cases ha

/-! ### Acts and threads -/

/-- The thread an act is about. -/
def Act.actor? : Act → Option ThreadId
  | .step t | .assign t _ | .wait t _ _ | .dismiss t | .push t _ | .pop t => some t
  | _ => none

/-- A thread gets a task. -/
theorem World.Minds.assign {w : World} {t : ThreadId} (ht : t < w.threads.size) (task : Task) :
    Minds t w (w.assign t task) := by
  have hpark : ∀ c, Minds t w ((w.park t).setControl t c) := fun c =>
    modifyThread (threads_park w t) (heap_park ▸ .refl _) _
  cases task <;> simp only [World.assign]
  case enroll | safepoint => split <;> exact setControl _ _ _
  case equip | retire | run | litter | lock => exact setControl _ _ _
  case pause =>
    split
    · exact hpark _
    · exact pause _ _ _
  case call function args => exact enter ht function args
  case nest =>
    refine of_becomes (becomes_nest ht) ?_
    rw [nest_eq ht]
    exact heap_park ▸ .refl _
  case request r =>
    by_cases hr : r = .collect
    · subst hr
      exact setControl _ _ _
    · exact of_sequel (Sequel.request (G := fun _ _ => True) (k := .host) ht r r (fun _ => hr)
        fun _ _ _ _ => trivial)

namespace Act

open World

/-- What an act that is no sweep does to the threads that it is not about. -/
theorem minds {c : Chronicle} {a : Act} {t : ThreadId} (ha : a.Orderly c)
    (hactor : a.actor? = some t) (hsweep : a = .step t → ∀ k, c.world.control t ≠ .sweeping k) :
    Minds t c.world (a.apply c.toHosted).world := by
  cases a with
  | step u =>
    cases hactor
    exact Minds.step (hsweep rfl)
  | assign u task =>
    cases hactor
    exact Minds.assign ha.1.known task
  | wait u what parked =>
    cases hactor
    cases parked with
    | true => exact Minds.modifyThread (threads_park _ _) (heap_park ▸ .refl _) _
    | false => exact Minds.setControl _ _ _
  | dismiss u =>
    cases hactor
    have hgone := Minds.setControl c.world t .gone
    exact ⟨hgone.evolves, hgone.others, .inl (size_modifyThread _)⟩
  | push u v | pop u =>
    cases hactor
    exact Minds.modifyThread rfl (.refl _) _
  | _ => cases hactor

/-- An act that is about no thread leaves all of them as they are. -/
theorem apart {a : Act} (hactor : a.actor? = none) (h : Hosted) {u : ThreadId}
    (hu : u < h.world.threads.size) :
    ∃ n, (a.apply h).world.thread u = { h.world.thread u with spent := n } := by
  by_cases htends : a.tends = true
  · exact ⟨_, thread_congr (tended htends h).threads u⟩
  cases a with
  | elapse now => exact ⟨0, thread_beginRound _ _ _⟩
  | spawn | helper =>
    refine ⟨_, (thread_add _ u).trans (if_neg hu.ne)⟩
  | resume => exact ⟨_, rfl⟩
  | step | assign | wait | dismiss | push | pop => cases hactor
  | _ => exact absurd rfl htends

/-- A thread that rests is the actor of everything but its own steps. -/
theorem spare_of_actor {c : Chronicle} {a : Act} {t : ThreadId} (ha : a.Orderly c)
    (hactor : a.actor? = some t) (hstep : a ≠ .step t) : c.world.Spare t := by
  cases a with
  | step u =>
    cases hactor
    exact absurd rfl hstep
  | assign u task =>
    cases hactor
    exact ha.1
  | wait | dismiss | push | pop =>
    cases hactor
    exact ha
  | _ => cases hactor

/-- What an act does to the threads that it is not about, sweeps included. -/
theorem passes {c : Chronicle} {a : Act} {t : ThreadId} (ha : a.Orderly c)
    (hactor : a.actor? = some t) : Passes t c.world (a.apply c.toHosted).world := by
  by_cases hstep : a = .step t
  · subst hstep
    exact Passes.step _ _
  · exact (minds ha hactor fun h => absurd h hstep).passes

/-- Whoever is not the actor stays as it is. -/
theorem bystander {c : Chronicle} {a : Act} {u : ThreadId} (ha : a.Orderly c)
    (hactor : a.actor? ≠ some u) (hu : u < c.world.threads.size) :
    ∃ n, (a.record c).world.thread u = { c.world.thread u with spent := n } := by
  cases ht : a.actor? with
  | none => exact apart ht c.toHosted hu
  | some t =>
    have hne : u ≠ t := fun heq => hactor (heq ▸ ht)
    exact ⟨_, (passes ha ht).others u hne hu⟩

theorem lt_size_of_actor {c : Chronicle} {a : Act} {t : ThreadId} (ha : a.Orderly c)
    (hactor : a.actor? = some t) : t < c.world.threads.size := by
  by_cases hstep : a = .step t
  · subst hstep
    refine lt_size_of_control fun hidle => ?_
    rw [show Orderly c (.step t) ↔ c.world.ready t = true from .rfl, ready, hidle] at ha
    cases ha
  · exact (spare_of_actor ha hactor hstep).known

/-- No thread is forgotten. -/
theorem size_le {c : Chronicle} {a : Act} (ha : a.Orderly c) :
    c.world.threads.size ≤ (a.record c).world.threads.size := by
  cases ht : a.actor? with
  | some t => exact (passes ha ht).born.size_le
  | none =>
    show c.world.threads.size ≤ (a.apply c.toHosted).world.threads.size
    by_cases htends : a.tends = true
    · rw [(tended htends c.toHosted).threads]
    cases a with
    | elapse now => exact (Array.size_map ..).ge
    | spawn | helper => exact (Nat.le_succ _).trans (Array.size_push ..).ge
    | resume => exact le_rfl
    | step | assign | wait | dismiss | push | pop => cases ht
    | _ => exact absurd rfl htends

/-- A thread that is new is one of the host or an isolate that is about to register. -/
theorem newcomer {c : Chronicle} {a : Act} {u : ThreadId} (ha : a.Orderly c)
    (hu : c.world.threads.size ≤ u) :
    (∃ control, (a.record c).world.thread u = { control } ∧
      (control = .idle ∨ ∃ agenda, control = .resolving agenda)) ∨
    Newborn ((a.record c).world.thread u) (a.record c).world := by
  have hnone := thread_of_size_le hu
  cases ht : a.actor? with
  | some t =>
    rcases (passes ha ht).born.newborn hu with hnone | ⟨-, hnew⟩
    · exact .inl ⟨.idle, hnone, .inl rfl⟩
    · exact .inr hnew
  | none =>
    left
    show ∃ control, (a.apply c.toHosted).world.thread u = _ ∧ _
    have hadd : ∀ th : Thread, (c.world.add th).1.thread u = th ∨
        (c.world.add th).1.thread u = {} := by
      intro th
      rw [thread_add]
      split
      · exact .inl rfl
      · exact .inr hnone
    by_cases htends : a.tends = true
    · rw [thread_congr (tended htends c.toHosted).threads]
      exact ⟨.idle, hnone, .inl rfl⟩
    cases a with
    | elapse now =>
      refine ⟨.idle, ?_, .inl rfl⟩
      show (c.world.beginRound now).thread u = _
      rw [thread_beginRound, hnone]
    | spawn => exact ⟨.idle, (hadd {}).elim id id, .inl rfl⟩
    | helper agenda =>
      rcases hadd { control := .resolving agenda } with hnew | hnew
      · exact ⟨_, hnew, .inr ⟨agenda, rfl⟩⟩
      · exact ⟨.idle, hnew, .inl rfl⟩
    | resume => exact ⟨.idle, hnone, .inl rfl⟩
    | step | assign | wait | dismiss | push | pop => cases ht
    | _ => exact absurd rfl htends

/-- Only a step that sweeps frees anything. -/
theorem evolves {c : Chronicle} {a : Act} (ha : a.Orderly c)
    (hsweep : ∀ t k, a = .step t → c.world.control t ≠ .sweeping k) :
    c.world.store.heap.Evolves (a.record c).world.store.heap := by
  show c.world.store.heap.Evolves (a.apply c.toHosted).world.store.heap
  cases hactor : a.actor? with
  | some t => exact (minds ha hactor fun hstep k => hsweep t k hstep).evolves
  | none =>
    by_cases htends : a.tends = true
    · exact (tended htends c.toHosted).evolves
    · cases a with
      | elapse | spawn | helper | resume => exact .refl _
      | step | assign | wait | dismiss | push | pop => cases hactor
      | _ => exact absurd rfl htends

/-- What is settled stays as long as it is live. -/
theorem lasts {c : Chronicle} {a : Act} (ha : a.Orderly c) :
    c.world.store.heap.Lasts (a.record c).world.store.heap := by
  cases hactor : a.actor? with
  | some t => exact (passes ha hactor).lasts
  | none =>
    refine .of_evolves (evolves ha fun t k hstep => ?_)
    subst hstep
    cases hactor

end Act

end ScriptCore
