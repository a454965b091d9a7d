import ScriptCore.Proofs.Machine.Allowance

/-!
# Calls of bound methods

A bound method is a method of one of the tables with a receiver, which may be of another type when a
host has bound it. A call checks the number of arguments, then the type of the receiver, then the
arguments; what fails a check has changed nothing.

* `Method.call_of_not_admits`, `Method.run_of_ne_owner`: the two checks and their order;
* `Method.Acts`: what a method does to its receiver after the checks;
* `Method.Log`: calls of methods one after another, with anything in between that leaves one list
  alone;
* `Method.Log.items`, `Method.Log.replies`: the list is an append-only sequence;
* `Vm.invoke_bound`, `Vm.step_getAttr`: how bound methods are called and made;
* `Vm.Dispatches`, `dispatches_of_bound`: calls of bound methods behave as typed methods.
-/

namespace ScriptCore

namespace Object

variable {o : Object}

/-- An object of a type that has methods of its own. -/
def Shaped (o : Object) : TypeName → Prop
  | .list => ∃ items, o = .list items
  | .error => ∃ f, o = .error f
  | .future => ∃ slot, o = .future slot
  | .mutex => ∃ l, o = .mutex l
  | _ => True

/-- The name of its type tells what an object is. -/
theorem shaped_of_typeName {t : TypeName} (ho : o.typeName = t) : o.Shaped t := by
  subst ho
  cases o with
  | list | error | future | mutex => exact ⟨_, rfl⟩
  | custom i => cases i <;> trivial
  | _ => trivial

end Object

namespace Method

/-- The methods of lists, errors, futures and mutexes. -/
def builtIn : List Method := [.list, .error, .future, .mutex].flatMap table

theorem owner_of_mem_table {m : Method} {t : TypeName} (hm : m ∈ table t) : m.owner = t := by
  cases t <;> simp [table] at hm
  case list | future => rcases hm with rfl | rfl | rfl <;> rfl
  case error | mutex => rcases hm with rfl | rfl <;> rfl
  case counter => subst hm; rfl

variable {m : Method} {me : Caller} {c : CellId} {o : Object} {args : Array Value} {s : Store}

/-! ### The checks of a call -/

/-- The number of arguments is checked before anything else. -/
theorem call_of_not_admits (harity : m.arity.admits args.size = false) :
    m.call me c args s = (s, .failed (.arity m.name m.arity args.size)) := by
  simp [call, Arity.check, harity]

theorem call_of_admits (harity : m.arity.admits args.size) :
    m.call me c args s = m.run me c args s := by
  simp [call, Arity.check, harity]

/-- A receiver of another type is refused. -/
theorem run_of_ne_owner (hm : m ∈ builtIn) (ho : s.heap.object? c = some o)
    (howner : o.typeName ≠ m.owner) :
    m.run me c args s = (s, .failed (.wrongReceiver m.owner o.typeName)) := by
  have htype : s.heap.typeOf (.ref c) = o.typeName := by simp [Heap.typeOf, ho]
  unfold run
  split
  case h_1 => simp [builtIn, table] at hm
  case h_12 => rw [htype]
  all_goals
    rename_i hobject
    cases ho.symm.trans hobject
    exact absurd rfl howner

/-! ### What a method does to its receiver -/

/-- What a method does once the checks are passed: it answers from its receiver, and a push, an
unlock and the texts of an error are the only ones that change the store. -/
inductive Acts (me : Caller) (c : CellId) (s : Store) :
    Method → Array Value → Object → Store × Reaction → Prop
  | len {items : Array Value} :
      Acts me c s .listLen #[] (.list items) (s, .value (.int (Int64.ofNat items.size)))
  | push {items : Array Value} {v : Value} :
      Acts me c s .listPush #[v] (.list items)
        (s.modifyHeap (·.setObject c (.list (items.push v))), .value .nil)
  | get {items : Array Value} {i : Int64} {v : Value} : 0 ≤ i.toInt →
      items[i.toInt.toNat]? = some v → Acts me c s .listGet #[.int i] (.list items) (s, .value v)
  | outOfRange {items : Array Value} {i : Int64} : ¬ (0 ≤ i.toInt ∧ i.toInt < items.size) →
      Acts me c s .listGet #[.int i] (.list items)
        (s, .failed (.indexOutOfRange i items.size))
  | notAnInt {items : Array Value} {v : Value} : v.int? = none →
      Acts me c s .listGet #[v] (.list items)
        (s, .failed (.argumentType 0 .int (s.heap.typeOf v)))
  | kind {f : Failure} : Acts me c s .errorKind #[] (.error f)
      ((s.make me.storage (.str f.kind.text)).1, .value (.ref s.heap.size))
  | message {f : Failure} : Acts me c s .errorMessage #[] (.error f)
      ((s.make me.storage (.str f.message)).1, .value (.ref s.heap.size))
  | hasResult {slot : Option Value} :
      Acts me c s .futureHasResult #[] (.future slot) (s, .value (.bool slot.isSome))
  | result {v : Value} : Acts me c s .futureGetResult #[] (.future (some v)) (s, .value v)
  | noResult : Acts me c s .futureGetResult #[] (.future none) (s, .failed .noResultYet)
  | wait {slot : Option Value} :
      Acts me c s .futureWait #[] (.future slot) (s, .suspended (.await c))
  | lock {l : LockId} : Acts me c s .mutexLock #[] (.mutex l) (s, .suspended (.lock l))
  | unlock {l : LockId} : (s.lock l).owner = some me.thread →
      Acts me c s .mutexUnlock #[] (.mutex l) (s.setLock l {}, .value .nil)
  | notLocked {l : LockId} : (s.lock l).owner ≠ some me.thread →
      Acts me c s .mutexUnlock #[] (.mutex l) (s, .failed .notLockedByThisThread)

theorem acts_get {items : Array Value} (ho : s.heap.object? c = some (.list items)) (v : Value) :
    Acts me c s .listGet #[v] (.list items) (run .listGet me c #[v] s) := by
  cases hv : v.int? with
  | none =>
    have hint : Arguments.int s.heap #[v] 0 =
        .error (.argumentType 0 .int (s.heap.typeOf v)) := by
      simp [Arguments.int, Arguments.expect, Arguments.get, hv]
    simp only [run, ho, hint]
    exact .notAnInt hv
  | some i =>
    have hint : Arguments.int s.heap #[v] 0 = .ok i := by
      simp [Arguments.int, Arguments.expect, Arguments.get, hv]
    obtain rfl : v = .int i := by
      cases v with
      | int j => cases hv; rfl
      | _ => cases hv
    simp only [run, ho, hint, itemAt]
    by_cases hrange : 0 ≤ i.toInt ∧ i.toInt < items.size
    · have hlt : i.toInt.toNat < items.size := by omega
      rw [if_neg (by omega), Array.getElem?_eq_getElem hlt]
      exact .get hrange.1 (Array.getElem?_eq_getElem hlt)
    · have hnone : (if i.toInt < 0 then none else items[i.toInt.toNat]?) = none := by
        split
        · rfl
        · exact Array.getElem?_eq_none (by omega)
      rw [hnone]
      exact .outOfRange hrange

theorem acts_of_checks (hm : m ∈ builtIn) (ho : s.heap.object? c = some o)
    (howner : o.typeName = m.owner) (harity : m.arity.admits args.size) :
    Acts me c s m args o (m.call me c args s) := by
  rw [call_of_admits harity]
  have hnone : m.arity = .exact 0 → args = #[] := by
    intro h
    simpa [h, Arity.admits] using harity
  have hone : m.arity = .exact 1 → ∃ v, args = #[v] := by
    intro h
    exact Array.size_eq_one_iff.1 (by simpa [h, Arity.admits] using harity)
  cases m with
  | listLen =>
    obtain ⟨items, rfl⟩ := Object.shaped_of_typeName howner
    obtain rfl := hnone rfl
    simp only [run, ho]
    exact .len
  | listPush =>
    obtain ⟨items, rfl⟩ := Object.shaped_of_typeName howner
    obtain ⟨v, rfl⟩ := hone rfl
    have hpush : s.modifyHeap (·.pushItem c v) =
        s.modifyHeap (·.setObject c (.list (items.push v))) := by
      rw [Store.modifyHeap_eq, Store.modifyHeap_eq, Heap.pushItem_eq ho]
    simp only [run, ho, Arguments.get, List.getElem?_toArray, List.getElem?_cons_zero, hpush]
    exact .push
  | listGet =>
    obtain ⟨items, rfl⟩ := Object.shaped_of_typeName howner
    obtain ⟨v, rfl⟩ := hone rfl
    exact acts_get ho v
  | errorKind =>
    obtain ⟨f, rfl⟩ := Object.shaped_of_typeName howner
    obtain rfl := hnone rfl
    simp only [run, ho]
    exact .kind
  | errorMessage =>
    obtain ⟨f, rfl⟩ := Object.shaped_of_typeName howner
    obtain rfl := hnone rfl
    simp only [run, ho]
    exact .message
  | futureHasResult =>
    obtain ⟨slot, rfl⟩ := Object.shaped_of_typeName howner
    obtain rfl := hnone rfl
    simp only [run, ho]
    exact .hasResult
  | futureGetResult =>
    obtain ⟨slot, rfl⟩ := Object.shaped_of_typeName howner
    obtain rfl := hnone rfl
    simp only [run, ho]
    cases slot with
    | none => exact .noResult
    | some v => exact .result
  | futureWait =>
    obtain ⟨slot, rfl⟩ := Object.shaped_of_typeName howner
    obtain rfl := hnone rfl
    simp only [run, ho]
    exact .wait
  | mutexLock =>
    obtain ⟨l, rfl⟩ := Object.shaped_of_typeName howner
    obtain rfl := hnone rfl
    simp only [run, ho]
    exact .lock
  | mutexUnlock =>
    obtain ⟨l, rfl⟩ := Object.shaped_of_typeName howner
    obtain rfl := hnone rfl
    simp only [run, ho, Lock.unlock]
    by_cases hlocked : (s.lock l).owner = some me.thread
    · rw [if_pos hlocked]
      exact .unlock hlocked
    · rw [if_neg hlocked]
      exact .notLocked hlocked
  | counterIncrement => simp [builtIn, table] at hm

namespace Acts

variable {r : Store × Reaction} {d : CellId}

/-- Only a push changes an object, the list it pushes to. -/
theorem object? (ha : Acts me c s m args o r) (hd : d < s.heap.size)
    (hother : d ≠ c ∨ m ≠ .listPush) : r.1.heap.object? d = s.heap.object? d := by
  cases ha with
  | push =>
    show (s.heap.setObject c _).object? d = _
    rw [Heap.object?_setObject, if_neg (hother.resolve_right (by simp)).symm]
  | kind | message =>
    show (s.heap.alloc _).1.object? d = _
    rw [Heap.object?_alloc, if_neg hd.ne]
  | _ => rfl

/-- After the checks nobody complains about the number of arguments or the receiver. -/
theorem not_refused (ha : Acts me c s m args o r) :
    (∀ f a n, r.2 ≠ .failed (.arity f a n)) ∧ ∀ t t', r.2 ≠ .failed (.wrongReceiver t t') := by
  cases ha <;> simp

end Acts

/-! ### Lists -/

/-- What an append-only sequence with these items answers. -/
structure Replies (h : Heap) (items : Array Value) (m : Method) (args : Array Value)
    (r : Reaction) : Prop where
  push : m = .listPush → args.size = 1 → r = .value .nil
  len : m = .listLen → args.size = 0 →
    ∃ n, r = .value (.int n) ∧ (items.size ≤ vectorLimit → n.toInt = items.size)
  get : ∀ i, m = .listGet → args = #[.int i] →
    ∀ v, r = .value v ↔ 0 ≤ i.toInt ∧ items[i.toInt.toNat]? = some v
  outOfRange : ∀ i, m = .listGet → args = #[.int i] → ¬ (0 ≤ i.toInt ∧ i.toInt < items.size) →
    r = .failed (.indexOutOfRange i items.size) ∧
      (Cause.indexOutOfRange i items.size).failure.kind = .argument
  notAnInt : ∀ v, m = .listGet → args = #[v] → v.int? = none →
    r = .failed (.argumentType 0 .int (h.typeOf v)) ∧
      (Cause.argumentType 0 .int (h.typeOf v)).failure.kind = .type

theorem replies_of_list {items : Array Value} (ho : s.heap.object? c = some (.list items)) :
    Replies s.heap items m args (m.call me c args s).2 := by
  have hacts : m ∈ table .list → m.arity.admits args.size →
      Acts me c s m args (.list items) (m.call me c args s) := fun hm harity =>
    acts_of_checks (by simp [builtIn, hm]) ho (owner_of_mem_table hm).symm harity
  refine ⟨?_, ?_, ?_, ?_, ?_⟩
  · rintro rfl hsize
    have ha := hacts (by simp [table]) (by simp [Method.arity, Arity.admits, hsize])
    generalize call .listPush me c args s = r at ha
    cases ha
    rfl
  · rintro rfl hsize
    have ha := hacts (by simp [table]) (by simp [Method.arity, Arity.admits, hsize])
    generalize call .listLen me c args s = r at ha
    cases ha
    refine ⟨_, rfl, fun hle => Int64.toInt_ofNat_of_lt ?_⟩
    unfold vectorLimit at hle
    omega
  · rintro i rfl rfl v
    have ha := hacts (by simp [table]) rfl
    generalize call .listGet me c #[.int i] s = r at ha
    cases ha with
    | get hi hv => simp only [Reaction.value.injEq, hv, Option.some.injEq, hi, true_and]
    | outOfRange hrange =>
      refine iff_of_false (by simp) ?_
      rintro ⟨hi, hv⟩
      refine hrange ⟨hi, ?_⟩
      have hlt := (Array.getElem?_eq_some_iff.1 hv).1
      omega
    | notAnInt hint => cases hint
  · rintro i rfl rfl hrange
    have ha := hacts (by simp [table]) rfl
    generalize call .listGet me c #[.int i] s = r at ha
    cases ha with
    | get hi hv =>
      have hlt := (Array.getElem?_eq_some_iff.1 hv).1
      exact absurd ⟨hi, by omega⟩ hrange
    | outOfRange => exact ⟨rfl, rfl⟩
    | notAnInt hint => cases hint
  · rintro v rfl rfl hint
    have ha := hacts (by simp [table]) rfl
    generalize call .listGet me c #[v] s = r at ha
    cases ha with
    | get | outOfRange => cases hint
    | notAnInt => exact ⟨rfl, rfl⟩

/-- A call of a method with its answer. -/
structure Invocation where
  caller : Caller
  method : Method
  receiver : CellId
  args : Array Value
  reaction : Reaction

/-- The item a call pushes to the list `c`. -/
def Invocation.pushed? (c : CellId) (e : Invocation) : Option Value :=
  if e.method = .listPush ∧ e.receiver = c ∧ e.args.size = 1 then e.args[0]? else none

/-- The items that calls push to the list `c`, in order. -/
def pushed (c : CellId) (log : List Invocation) : Array Value :=
  (log.filterMap (·.pushed? c)).toArray

/-- Calls of methods by any callers, one after another. Whatever else happens in between, the
object in `c` stays what it is. -/
inductive Log (c : CellId) : Store → List Invocation → Store → Prop
  | nil {s : Store} : Log c s [] s
  | quiet {log : List Invocation} {s s₁ s₂ : Store} : Log c s log s₁ →
      s₂.heap.object? c = s₁.heap.object? c → Log c s log s₂
  | call {log : List Invocation} {s s₁ : Store} {me : Caller} {m : Method} {r : CellId}
      {o : Object} {args : Array Value} : Log c s log s₁ → m ∈ builtIn →
      s₁.heap.object? r = some o →
      Log c s (log ++ [⟨me, m, r, args, (m.call me r args s₁).2⟩]) (m.call me r args s₁).1

/-- A call fails a check and changes nothing, or it passes them and acts. -/
theorem call_cases (me : Caller) (args : Array Value) (hm : m ∈ builtIn)
    (ho : s.heap.object? c = some o) :
    (∃ x, m.call me c args s = (s, .failed x)) ∧
        ¬ (m.arity.admits args.size ∧ o.typeName = m.owner) ∨
      Acts me c s m args o (m.call me c args s) := by
  by_cases harity : m.arity.admits args.size
  · by_cases howner : o.typeName = m.owner
    · exact .inr (acts_of_checks hm ho howner harity)
    · exact .inl ⟨⟨_, (call_of_admits harity).trans (run_of_ne_owner hm ho howner)⟩,
        fun h => howner h.2⟩
  · exact .inl ⟨⟨_, call_of_not_admits (Bool.eq_false_iff.2 harity)⟩, fun h => harity h.1⟩

/-- A call appends to a list what it pushes to it. -/
theorem items_call {items : Array Value} {receiver : CellId}
    (hc : s.heap.object? c = some (.list items)) (hm : m ∈ builtIn)
    (ho : s.heap.object? receiver = some o) :
    (m.call me receiver args s).1.heap.object? c = some (.list (items ++
      pushed c [⟨me, m, receiver, args, (m.call me receiver args s).2⟩])) := by
  have hsize := Heap.lt_size_of_object? hc
  have hnone : ∀ {e : Invocation}, e.pushed? c = none → items ++ pushed c [e] = items := by
    intro e he
    simp [pushed, he]
  by_cases hpush : m = .listPush ∧ receiver = c
  · obtain ⟨rfl, rfl⟩ := hpush
    cases ho.symm.trans hc
    rcases call_cases me args hm hc with ⟨⟨x, hcall⟩, hchecks⟩ | ha
    · have hargs : args.size ≠ 1 := fun h => hchecks ⟨by simp [arity, Arity.admits, h], rfl⟩
      rw [hnone (if_neg fun h => hargs h.2.2), hcall]
      exact hc
    · generalize call .listPush me receiver args s = r at ha
      cases ha
      show (s.heap.setObject receiver _).object? receiver = _
      rw [Heap.object?_setObject, if_pos rfl, hc]
      simp [pushed, Invocation.pushed?]
  · rw [hnone (if_neg fun h => hpush ⟨h.1, h.2.1⟩), ← hc]
    rcases call_cases me args hm ho with ⟨⟨x, hcall⟩, -⟩ | ha
    · rw [hcall]
    · refine ha.object? hsize ?_
      by_cases hr : receiver = c
      · exact .inr fun h => hpush ⟨h, hr⟩
      · exact .inl (Ne.symm hr)

namespace Log

variable {log before after : List Invocation} {s' : Store} {vs : Array Value} {e : Invocation}

/-- The items of a list are the ones it had, followed by those that were pushed. -/
theorem items (h : Log c s log s') (ho : s.heap.object? c = some (.list vs)) :
    s'.heap.object? c = some (.list (vs ++ pushed c log)) := by
  induction h with
  | nil => simpa [pushed] using ho
  | quiet _ hsame ih => rw [hsame, ih ho]
  | @call log _ _ me m r o args _ hm hr ih =>
    rw [items_call (ih ho) hm hr, Array.append_assoc]
    simp [pushed]

/-- Every call was made at some time, after those before it. -/
theorem split (h : Log c s log s') (hsplit : log = before ++ e :: after) :
    ∃ s₁, Log c s before s₁ ∧
      e.reaction = (e.method.call e.caller e.receiver e.args s₁).2 := by
  induction h generalizing after with
  | nil => simp at hsplit
  | quiet _ _ ih => exact ih hsplit
  | call hlog hm hr ih =>
    rcases snoc_eq_append_cons hsplit with ⟨rfl, rfl, -⟩ | ⟨after', -, hinit⟩
    · exact ⟨_, hlog, rfl⟩
    · exact ih hinit

/-- The list answers as the sequence of the items it had and those pushed before the call. -/
theorem replies (h : Log c s (before ++ e :: after) s') (he : e.receiver = c)
    (ho : s.heap.object? c = some (.list vs)) :
    ∃ s₁, Log c s before s₁ ∧
      Replies s₁.heap (vs ++ pushed c before) e.method e.args e.reaction := by
  obtain ⟨s₁, hbefore, hreaction⟩ := h.split rfl
  rw [hreaction, he]
  exact ⟨s₁, hbefore, replies_of_list (hbefore.items ho)⟩

end Log

end Method

/-! ### Calls on the machine -/

/-- Nothing that happens around a machine changes or frees the object in a cell. -/
structure Surroundings.Spares (env : Surroundings) (c : CellId) : Prop where
  drifts : ∀ s s', env.drifts s s' → s'.heap.object? c = s.heap.object? c
  grants : ∀ q s o s', env.grants q s o s' → s'.heap.object? c = s.heap.object? c

namespace Vm

variable {env : Surroundings} {me : Caller} {vm vm' : Vm} {s s' : Store} {b c : CellId}
  {m : Method} {o : Object} {args below : Array Value} {argc : UInt64}
  {trace : List (Vm × Store)} {start r : Vm × Store × Signal}

/-- A call of a bound method, from wherever it is made, is a call of the method on its receiver. -/
theorem invoke_bound (vm : Vm) (below : Array Value) (hb : s.heap.object? b = some (.bound c m))
    (hargs : args.size + 1 < UInt64.size) (hargc : argc.toNat = args.size)
    (hstack : vm.stack = below.push (.ref b) ++ args) :
    vm.invoke me argc s = vm.answer below.size (m.call me c args s) := by
  have hdepth : vm.depth = below.size + (args.size + 1) := by
    simp only [depth, hstack, Array.size_append, Array.size_push]
    omega
  have hcallee : vm.stack.getD below.size .nil = .ref b := by
    simp [hstack, Array.getElem?_append]
  have hdrop : vm.stack.drop (below.size + 1) = args := by simp [hstack]
  have hderef : s.heap.deref? (.ref b) = some (.bound c m) := hb
  unfold invoke
  rw [hargc, if_neg hargs.ne, hdepth, if_neg (by omega), Nat.add_sub_cancel]
  simp only [hcallee, hderef, hdrop]

/-- Function and arguments are laid out for a call on a machine. -/
def outset (vm : Vm) (function : Value) (args : Array Value) : Vm :=
  ({ vm with error := false, entry := vm.depth }.push function).pushAll args

theorem enter_bound (hb : s.heap.object? b = some (.bound c m))
    (hargs : args.size + 1 < UInt64.size) :
    vm.enter me (.ref b) args s =
      (vm.outset (.ref b) args).answer vm.depth (m.call me c args s) :=
  invoke_bound _ vm.stack hb hargs (Site.toNat_ofNat_of_succ_lt hargs) rfl

/-- A call instruction calls the bound method that lies below its arguments. -/
theorem step_call_bound (me : Caller) (hb : s.heap.object? b = some (.bound c m))
    (hargs : args.size + 1 < UInt64.size) (hcurrent : vm.current? s.heap = some (.call argc))
    (hargc : argc.toNat = args.size) (hstack : vm.stack = below.push (.ref b) ++ args) :
    ∃ vm₁ : Vm, vm₁.stack = vm.stack ∧
      vm.step me s = vm₁.answer below.size (m.call me c args s) := by
  obtain ⟨f, rest, -, -, hstep⟩ := step_call me hcurrent
  let vm₁ : Vm := { vm with frames := { f with ip := f.ip + 1 } :: rest }
  exact ⟨vm₁, rfl, hstep.trans (invoke_bound vm₁ _ hb hargs hargc hstack)⟩

/-- On an idle machine a bound method comes to an end with the outcome of the method. -/
theorem runs_enter_bound_iff (hb : s.heap.object? b = some (.bound c m))
    (hargs : args.size + 1 < UInt64.size) (hframes : vm.frames = []) :
    (∃ trace x, Runs env me trace (vm.enter me (.ref b) args s) vm' s' x) ↔
      ∃ out s₁, Answers env me (m.call me c args s) out s₁ ∧
        Shows me vm.stack out s₁ vm' s' := by
  have houtset : vm.outset (.ref b) args = vm.site.laid (.ref b) args := by
    simp [outset, Site.laid, Vm.site, push, pushAll, hframes]
  rw [enter_bound hb hargs, houtset]
  constructor
  · rintro ⟨trace, x, hrun⟩
    obtain ⟨out, s₁, ha, hrun⟩ := Site.runs_answer_iff.1 hrun
    exact ⟨out, s₁, ha, shows_of_runs hrun⟩
  · rintro ⟨out, s₁, ha, hshows⟩
    obtain ⟨x, hrun⟩ := hshows.runs
    exact ⟨[], x, Site.runs_answer_iff.2 ⟨out, s₁, ha, hrun⟩⟩

/-- A call on a machine fails for that cause: nothing has changed, and unwinding leaves the error
object, the only new cell, in place of function and arguments. -/
structure Raises (me : Caller) (vm : Vm) (s : Store) (r : Vm × Store × Signal) (x : Cause) :
    Prop where
  failed : r.2 = (s, .failed x)
  unwound : r.1.fail me x s = (⟨vm.stack.push (.ref s.heap.size), [], vm.depth, true⟩,
    (s.make me.storage (.error x.failure)).1)
  error : (s.make me.storage (.error x.failure)).1.heap.object? s.heap.size =
    some (.error x.failure)
  size : (s.make me.storage (.error x.failure)).1.heap.size = s.heap.size + 1
  cells : ∀ d < s.heap.size,
    (s.make me.storage (.error x.failure)).1.heap.get? d = s.heap.get? d

theorem raises_outset (function : Value) (args : Array Value) (x : Cause) :
    Raises me vm s (vm.outset function args, s, .failed x) x where
  failed := rfl
  unwound := by
    have hshrink : (vm.stack.push function ++ args).shrink vm.stack.size = vm.stack := by
      rw [Array.shrink_eq_take]
      simp
    simp only [fail, outset, push, pushAll, truncate, depth, hshrink]
    rfl
  error := Store.object?_make _ _ _
  size := Heap.size_alloc _ _
  cells d hd := by
    show (s.heap.alloc _).1.get? d = s.heap.get? d
    rw [Heap.get?_alloc, if_neg hd.ne]

/-- The same outcome of two calls: the same store, and the same value, failure, panic or wait. -/
inductive SameOutcome : Vm × Store × Signal → Vm × Store × Signal → Prop
  | value {vm vm' : Vm} {s : Store} (v : Value) :
      SameOutcome (vm.push v, s, .next) (vm'.push v, s, .next)
  | failed {vm vm' : Vm} {s : Store} (x : Cause) :
      SameOutcome (vm, s, .failed x) (vm', s, .failed x)
  | panicked {vm vm' : Vm} {s : Store} (p : Panic) :
      SameOutcome (vm, s, .panicked p) (vm', s, .panicked p)
  | suspended {vm vm' : Vm} {s : Store} {callee callee' : Nat} (q : Request) :
      SameOutcome (vm, s, .suspended callee q) (vm', s, .suspended callee' q)

theorem sameOutcome_answer (vm vm' : Vm) (callee callee' : Nat) (r : Store × Reaction) :
    SameOutcome (vm.answer callee r) (vm'.answer callee' r) := by
  obtain ⟨s, v | x | p | q⟩ := r
  · exact .value v
  · exact .failed x
  · exact .panicked p
  · exact .suspended q

/-- The name of a method, read from a receiver of its type, is the method. -/
theorem attribute?_of_owner (hm : m ∈ Method.builtIn) (ho : o.typeName = m.owner) :
    o.attribute? m.name = some (.method m) := by
  cases m with
  | listLen | listPush | listGet =>
    obtain ⟨items, rfl⟩ := Object.shaped_of_typeName ho
    rfl
  | errorKind | errorMessage =>
    obtain ⟨f, rfl⟩ := Object.shaped_of_typeName ho
    rfl
  | futureHasResult | futureGetResult | futureWait =>
    obtain ⟨slot, rfl⟩ := Object.shaped_of_typeName ho
    rfl
  | mutexLock | mutexUnlock =>
    obtain ⟨l, rfl⟩ := Object.shaped_of_typeName ho
    rfl
  | counterIncrement => simp [Method.builtIn, Method.table] at hm

/-- Bytecode is about to read the attribute of that name from what is on top of the stack. -/
structure Reads (vm : Vm) (h : Heap) (f : Frame) (rest : List Frame) (name : String) : Prop where
  frames : vm.frames = f :: rest
  reads : ∃ code i, h.object? f.code = some (.function code) ∧
    code.instrs[f.ip]? = some (.getAttr i) ∧ nameConstant h code i = .ok name

/-- Reading the name of a method binds it to the receiver, in a new cell. -/
theorem step_getAttr (me : Caller) {f : Frame} {rest : List Frame} (hm : m ∈ Method.builtIn)
    (hreads : vm.Reads s.heap f rest m.name) (hstack : vm.stack = below.push (.ref c))
    (ho : s.heap.object? c = some o) (howner : o.typeName = m.owner) :
    vm.step me s =
      ({ vm with stack := below.push (.ref s.heap.size),
                 frames := { f with ip := f.ip + 1 } :: rest },
        (s.make me.storage (.bound c m)).1, .next) := by
  obtain ⟨hframes, code, i, hcode, hinstr, hname⟩ := hreads
  have hattribute : s.heap.attribute? (.ref c) m.name = some (.method m) := by
    simp [Heap.attribute?, Heap.deref?, ho, attribute?_of_owner hm howner]
  simp only [step, hframes, hcode, hinstr, exec, hname, peek?, hstack, Array.back?_push,
    hattribute, dropTop, Array.pop_push, push]
  rfl

/-- An object that no write changes stays, as long as nothing else changes it. -/
theorem Arrives.object?_of_settled (h : Arrives env me start trace r) (henv : env.Spares c)
    (hsettled : o.Settled) (ho : start.2.1.heap.object? c = some o) :
    r.2.1.heap.object? c = some o := by
  induction h with
  | start => exact ho
  | step _ _ hdrift ih =>
    exact (step_safe _ _ _).edited.evolves.settled hsettled ((henv.drifts _ _ hdrift).trans ih)
  | granted _ hgrant ih =>
    exact (evolves_receive _ _ _ _ _).settled hsettled ((henv.grants _ _ _ _ hgrant).trans ih)

/-- The bound method in `b`, of the method `m` and the receiver `c` with the object `o`, behaves as
a typed method when it is called with these arguments. -/
structure Dispatches (me : Caller) (s : Store) (b c : CellId) (m : Method) (o : Object)
    (args : Array Value) : Prop where
  /-- The call is the call of the method, whose answer takes the place of callee and arguments. -/
  direct : ∀ vm : Vm, vm.enter me (.ref b) args s =
    (vm.outset (.ref b) args).answer vm.depth (m.call me c args s)
  /-- It complains about the number of arguments exactly if that is wrong. -/
  arity : ∀ vm : Vm, Raises me vm s (vm.enter me (.ref b) args s)
    (.arity m.name m.arity args.size) ↔ m.arity.admits args.size = false
  arity_kind : (Cause.arity m.name m.arity args.size).failure.kind = .argument
  /-- Otherwise it complains about the receiver exactly if that is of another type. -/
  receiver : ∀ vm : Vm, m.arity.admits args.size →
    (Raises me vm s (vm.enter me (.ref b) args s) (.wrongReceiver m.owner o.typeName) ↔
      o.typeName ≠ m.owner)
  receiver_failure : (Cause.wrongReceiver m.owner o.typeName).failure =
    ⟨.type, "method of " ++ m.owner.text ++ " called on " ++ o.typeName.text⟩
  /-- Otherwise the method acts on the receiver. -/
  acts : m.arity.admits args.size → o.typeName = m.owner →
    Method.Acts me c s m args o (m.call me c args s)
  /-- On an idle machine the call comes to an end with the outcome of the method. -/
  completes : ∀ (env : Surroundings) (vm vm' : Vm) (s' : Store), vm.frames = [] →
    ((∃ trace x, Runs env me trace (vm.enter me (.ref b) args s) vm' s' x) ↔
      ∃ out s₁, Answers env me (m.call me c args s) out s₁ ∧ Shows me vm.stack out s₁ vm' s')
  /-- Over all calls that follow, a list is an append-only sequence: it has the items it had,
  followed by those pushed since, and answers every call from the items it has by then. -/
  sequence : ∀ items log s', o = .list items → Method.Log c s log s' →
    s'.heap.object? c = some (.list (items ++ Method.pushed c log)) ∧
      ∀ before e after, log = before ++ e :: after → e.receiver = c →
        ∃ s₁, Method.Log c s before s₁ ∧
          Method.Replies s₁.heap (items ++ Method.pushed c before) e.method e.args e.reaction
  /-- Bytecode that reads the method from the receiver and later calls it has the same outcome. -/
  bytecode : ∀ (vm₀ : Vm) (s₀ : Store) (f : Frame) (rest : List Frame) (under : Array Value)
    (o₀ : Object), vm₀.Reads s₀.heap f rest m.name → vm₀.stack = under.push (.ref c) →
    s₀.heap.object? c = some o₀ → o₀.typeName = m.owner →
    vm₀.step me s₀ =
        ({ vm₀ with stack := under.push (.ref s₀.heap.size),
                    frames := { f with ip := f.ip + 1 } :: rest },
          (s₀.make me.storage (.bound c m)).1, .next) ∧
      ∀ (env : Surroundings) (trace : List (Vm × Store)) (vm₁ : Vm) (s₁ : Store)
        (below : Array Value) (argc : UInt64), env.Spares s₀.heap.size →
        Arrives env me (vm₀.step me s₀) trace (vm₁, s₁, .next) → env.drifts s₁ s →
        vm₁.current? s.heap = some (.call argc) → argc.toNat = args.size →
        vm₁.stack = below.push (.ref s₀.heap.size) ++ args →
        (∃ vm₂ : Vm, vm₂.stack = vm₁.stack ∧
          vm₁.step me s = vm₂.answer below.size (m.call me c args s)) ∧
        ∀ vm : Vm, SameOutcome (vm₁.step me s) (vm.enter me (.ref b) args s)

/-- Calls of bound methods behave as calls of typed methods, for every receiver and all
arguments. -/
theorem dispatches_of_bound (hb : s.heap.object? b = some (.bound c m)) (hm : m ∈ Method.builtIn)
    (ho : s.heap.object? c = some o) (hargs : args.size + 1 < UInt64.size) :
    Dispatches me s b c m o args := by
  have hdirect : ∀ vm : Vm, vm.enter me (.ref b) args s =
      (vm.outset (.ref b) args).answer vm.depth (m.call me c args s) := fun vm =>
    enter_bound hb hargs
  have hfailed : ∀ (vm : Vm) {x : Cause}, m.call me c args s = (s, .failed x) →
      Raises me vm s (vm.enter me (.ref b) args s) x := by
    intro vm x hcall
    rw [hdirect vm, hcall]
    exact raises_outset _ _ _
  have hcause : ∀ (vm : Vm) {x : Cause}, Raises me vm s (vm.enter me (.ref b) args s) x →
      (m.call me c args s).2 = .failed x := by
    intro vm x hraises
    have hsignal := congrArg Prod.snd hraises.failed
    rw [hdirect vm] at hsignal
    generalize m.call me c args s = r at hsignal ⊢
    obtain ⟨s', v | y | p | q⟩ := r <;> cases hsignal
    rfl
  refine ⟨hdirect, fun vm => ⟨fun hraises => ?_, fun harity => ?_⟩, ?_,
    fun vm harity => ⟨fun hraises howner => ?_, fun howner => ?_⟩, rfl,
    fun harity howner => Method.acts_of_checks hm ho howner harity, ?_, ?_, ?_⟩
  · by_contra hadmits
    have harity : m.arity.admits args.size := by simpa using hadmits
    have hcall := hcause vm hraises
    by_cases howner : o.typeName = m.owner
    · exact (Method.acts_of_checks hm ho howner harity).not_refused.1 _ _ _ hcall
    · rw [Method.call_of_admits harity, Method.run_of_ne_owner hm ho howner] at hcall
      cases hcall
  · exact hfailed vm (Method.call_of_not_admits harity)
  · cases m.arity <;> rfl
  · exact (Method.acts_of_checks hm ho howner harity).not_refused.2 _ _ (hcause vm hraises)
  · exact hfailed vm
      ((Method.call_of_admits harity).trans (Method.run_of_ne_owner hm ho howner))
  · exact fun env vm vm' s' hframes => runs_enter_bound_iff hb hargs hframes
  · rintro items log s' rfl hlog
    refine ⟨hlog.items ho, ?_⟩
    rintro before e after rfl he
    exact hlog.replies he ho
  · intro vm₀ s₀ f rest under o₀ hreads hstack ho₀ howner
    have hstep := step_getAttr me hm hreads hstack ho₀ howner
    refine ⟨hstep, ?_⟩
    intro env trace vm₁ s₁ below argc henv harrives hdrift hcurrent hargc hstack₁
    rw [hstep] at harrives
    have hbound : s.heap.object? s₀.heap.size = some (.bound c m) :=
      (henv.drifts _ _ hdrift).trans
        (harrives.object?_of_settled henv (Object.settled_bound c m) (Store.object?_make _ _ _))
    obtain ⟨vm₂, hstack₂, hanswer⟩ :=
      step_call_bound me hbound hargs hcurrent hargc hstack₁
    refine ⟨⟨vm₂, hstack₂, hanswer⟩, fun vm => ?_⟩
    rw [hanswer, hdirect vm]
    exact sameOutcome_answer _ _ _ _ _

end Vm

/-- A store with a list, a method that is bound to it, and a method of errors bound to it. -/
def Store.listed : Store :=
  let s : Store := { collector := .new {}, isolates := {} }
  let (s, l) := s.makeImmortal (.list #[.int 7, .nil])
  let (s, _) := s.makeImmortal (.bound l .listGet)
  (s.makeImmortal (.bound l .errorMessage)).1

/-- The second method refuses its receiver. -/
theorem Vm.dispatches_listed :
    let s := Store.listed
    let me : Caller := ⟨0, 0, "main"⟩
    let o : Object := .list #[.int 7, .nil]
    (s.heap.object? 1 = some (.bound 0 .listGet) ∧
      Vm.Dispatches me s 1 0 .listGet o #[.int 1]) ∧
    s.heap.object? 2 = some (.bound 0 .errorMessage) ∧
      Vm.Dispatches me s 2 0 .errorMessage o #[] ∧
      Vm.Raises me {} s (Vm.enter me (.ref 2) #[] {} s) (.wrongReceiver .error .list) ∧
      (Cause.wrongReceiver .error .list).failure = ⟨.type, "method of Error called on List"⟩ := by
  intro s me o
  have hrefused : Vm.Dispatches me s 2 0 .errorMessage o #[] :=
    Vm.dispatches_of_bound rfl (by decide) rfl (by decide)
  exact ⟨⟨rfl, Vm.dispatches_of_bound rfl (by decide) rfl (by decide)⟩, rfl, hrefused,
    (hrefused.receiver {} rfl).2 (by decide), rfl⟩

end ScriptCore
