import ScriptCore.Proofs.Store.Edited
import ScriptCore.Vm

/-!
# A machine never lets go of what it needs

A machine changes the store as `Store.Edited` says, and stores only values of its stack. In a closed
heap, and with live values on its stack and under the global names, it has live values on its stack
afterwards. What a call that is suspended still needs lies on the stack, as its callee or among its
arguments.

* `Answered`: the answer of a native function or method;
* `Request.Kept`: what a suspended request refers to is kept by the stack;
* `Vm.Safe`: the outcome of an instruction;
* `Vm.step_safe`, `Vm.enter_safe`, `Vm.fail_safe`.
-/

namespace ScriptCore

open Store (Edited)

theorem mem_of_mem_drop {vs : Array Value} {n : Nat} {v : Value} (hv : v ∈ vs.drop n) : v ∈ vs := by
  rw [Array.drop_eq_extract, ← Array.mem_toList_iff, Array.toList_extract] at hv
  exact Array.mem_toList_iff.1 (List.mem_of_mem_drop (List.mem_of_mem_take hv))

/-- The value is one of these or an immediate. -/
def From (vs : Array Value) (v : Value) : Prop := v ∈ vs ∨ ∀ c, v ≠ .ref c

theorem From.holds {vs : Array Value} {h : Heap} (hvs : ∀ v ∈ vs, h.Holds v) {v : Value}
    (hv : From vs v) : h.Holds v := by
  rcases hv with hv | hv
  · exact hvs v hv
  · exact fun c hc => absurd hc (hv c)

/-! ### Native functions and methods -/

/-- What the answer of a call with these arguments refers to is live or an argument. -/
def Reaction.Fits (h : Heap) (args : Array Value) (receiver : Option CellId) : Reaction → Prop
  | .value v => h.Holds v
  | .suspended (.await f) => receiver = some f
  | .suspended (.awaitFor _ _) => False
  | .suspended (.start f as) => f ∈ args ∧ ∀ a ∈ as, a ∈ args
  | .suspended (.join fs _ _) => ∀ v ∈ fs, h.Holds v
  | _ => True

/-- The store and the answer of a call. -/
structure Answered (me : Caller) (s : Store) (args : Array Value) (receiver : Option CellId)
    (p : Store × Reaction) : Prop where
  edited : Edited me.storage (From args) s p.1
  fits : s.heap.Closed → (∀ v ∈ args, s.heap.Holds v) → p.2.Fits p.1.heap args receiver

section

variable {me : Caller} {s : Store} {args : Array Value} {receiver : Option CellId}

theorem answered_same {r : Reaction}
    (hr : s.heap.Closed → (∀ v ∈ args, s.heap.Holds v) → r.Fits s.heap args receiver) :
    Answered me s args receiver (s, r) :=
  ⟨.refl _ _ _, hr⟩

theorem answered_int (n : Int64) : Answered me s args receiver (s, .value (.int n)) :=
  answered_same fun _ _ => Heap.holds_int _ _

theorem answered_failed (c : Cause) : Answered me s args receiver (s, .failed c) :=
  answered_same fun _ _ => trivial

theorem answered_make {o : Object} (he : ∀ v ∈ o.edges, From args v) :
    Answered me s args receiver (Native.makeValue me s o) :=
  ⟨Store.edited_make he, fun _ _ => Heap.holds_ref.2 (Store.live_make s me.storage o)⟩

/-- A request fits if it does whenever its arguments are right. -/
theorem answered_request {r : Except Cause Request}
    (hr : ∀ q, r = .ok q → s.heap.Closed → Reaction.Fits s.heap args receiver (.suspended q)) :
    Answered me s args receiver (Native.request s r) := by
  unfold Native.request
  split
  · exact answered_same fun hs _ => hr _ rfl hs
  · exact answered_failed _

theorem Arguments.get_mem {i : Nat} {v : Value} (hv : Arguments.get args i = .ok v) : v ∈ args := by
  unfold Arguments.get at hv
  split at hv
  · rename_i w hw
    cases hv
    exact Array.mem_of_getElem? hw
  · cases hv

/-- An argument that passed a check was read from a value that is there. -/
theorem Arguments.expect_eq_ok {α : Type} {h : Heap} {i : Nat} {expected : Expected}
    {read : Value → Option α} {a : α} (ha : Arguments.expect h args i expected read = .ok a) :
    ∃ v ∈ args, read v = some a := by
  unfold Arguments.expect at ha
  split at ha
  · rename_i v hv
    split at ha
    · rename_i b hb
      cases ha
      exact ⟨v, Arguments.get_mem hv, hb⟩
    · cases ha
  · cases ha

theorem Arguments.callable_mem {h : Heap} {i : Nat} {c : CellId}
    (hc : Arguments.callable h args i = .ok c) : .ref c ∈ args := by
  obtain ⟨v, hv, hread⟩ := Arguments.expect_eq_ok hc
  split at hread
  · cases v <;> simp_all [Value.cell?]
  · cases hread

theorem Heap.Closed.holds_list? {h : Heap} {v : Value} {items : Array Value} (hh : h.Closed)
    (hv : h.list? v = some items) : ∀ x ∈ items, h.Holds x := by
  intro x hx
  unfold Heap.list? at hv
  split at hv
  · rename_i items' hderef
    cases hv
    cases v with
    | ref c => exact hh c _ hderef x (by simpa [Object.edges] using hx)
    | _ => cases hderef
  · cases hv

/-- A native function stores nothing but its arguments and answers with live values. -/
theorem Native.answered_run (f : Native) : Answered me s args none (f.run me args s) := by
  have hlist : ∀ v ∈ (Object.list args).edges, From args v := fun v hv =>
    .inl (by simpa [Object.edges] using hv)
  unfold Native.run
  cases f with
  | startIsolate =>
    refine answered_request fun q hq _ => ?_
    cases hc : Arguments.callable s.heap args 0 with
    | error e => simp [hc, Except.map] at hq
    | ok c =>
      simp only [hc, Except.map, Except.ok.injEq] at hq
      subst hq
      exact ⟨Arguments.callable_mem hc, fun a ha => mem_of_mem_drop ha⟩
  | waitUntilCompleted =>
    refine answered_request fun q hq hs => ?_
    cases hc : Arguments.list s.heap args 0 with
    | error e => simp [hc, Except.map] at hq
    | ok fs =>
      simp only [hc, Except.map, Except.ok.injEq] at hq
      subst hq
      obtain ⟨v, -, hread⟩ := Arguments.expect_eq_ok hc
      exact hs.holds_list? hread
  | list => exact answered_make hlist
  | sleep =>
    refine answered_request fun q hq _ => ?_
    cases hc : Arguments.number s.heap args 0 with
    | error e => simp [hc, Except.bind] at hq
    | ok x =>
      simp only [hc, Except.bind, sleepSeconds] at hq
      split at hq <;> cases hq
      trivial
  | sleepMs =>
    refine answered_request fun q hq _ => ?_
    cases hc : Arguments.int s.heap args 0 with
    | error e => simp [hc, Except.bind] at hq
    | ok n =>
      simp only [hc, Except.bind, sleepMilliseconds] at hq
      split at hq <;> cases hq
      trivial
  | gcCollect => exact answered_same fun _ _ => trivial
  | getAllocLimit => exact answered_int _
  | setAllocLimit =>
    simp only
    split
    · unfold setLimit
      split
      · exact answered_failed _
      · exact ⟨Store.edited_setLimit _ _ _, fun _ _ => Heap.holds_nil _⟩
    · exact answered_failed _
  | getAllocCount => exact answered_int _
  | getImmortalCount => exact answered_int _
  | mutex =>
    have hlock : Edited me.storage (From args) s s.newLock.1 := .of_collector_eq rfl rfl
    have hmake : Edited me.storage (From args) s.newLock.1
        (s.newLock.1.make me.storage (.mutex s.locks.size)).1 :=
      Store.edited_make (by simp [Object.edges])
    exact ⟨hlock.trans hmake, fun _ _ => Heap.holds_ref.2 (Store.live_make _ _ _)⟩
  | answer => exact answered_int _
  | count =>
    simp only
    split
    · exact answered_int _
    · exact answered_failed _
  | echo => exact answered_make hlist
  | shadowList => exact answered_make (by simp [Object.edges])
  | boomStr => exact answered_same fun _ _ => trivial
  | boomString =>
    simp only
    split <;> exact answered_same fun _ _ => trivial
  | boomAny => exact answered_same fun _ _ => trivial
  | threadName => exact answered_make (by simp [Object.edges])
  | counter => exact answered_make (by simp [Object.edges])
  | cell =>
    refine answered_make fun v hv => ?_
    obtain rfl : v = args.getD 0 .nil := by simpa [Object.edges] using hv
    rw [Array.getD_eq_getD_getElem?]
    cases hget : args[0]? with
    | none => exact .inr (by simp)
    | some v => exact .inl (Array.mem_of_getElem? hget)
  | plain => exact answered_make (by simp [Object.edges])

theorem Native.answered_call (f : Native) : Answered me s args none (f.call me args s) := by
  unfold Native.call
  split
  · exact f.answered_run
  · exact answered_failed _

theorem Method.answered_increment (c : CellId) :
    Answered me s args receiver (Method.increment c s) := by
  unfold Method.increment
  split
  · split
    · split
      · rename_i hc
        exact ⟨Store.edited_attributeChange hc (.inr (by simp)), fun _ _ => Heap.holds_nil _⟩
      · exact answered_failed _
    · exact answered_failed _
  · exact answered_failed _

/-- A method stores nothing but its arguments and answers with live values. Only waiting for a
future suspends on one, its receiver. -/
theorem Method.answered_run (m : Method) (c : CellId) :
    Answered me s args (some c) (m.run me c args s) := by
  unfold Method.run
  split
  · exact answered_increment c
  · exact answered_int _
  · split
    · rename_i v hv
      exact ⟨Store.edited_pushItem c (.inl (Arguments.get_mem hv)), fun _ _ => Heap.holds_nil _⟩
    · exact answered_failed _
  · rename_i items ho
    split
    · rename_i i hi
      unfold itemAt
      split
      · rename_i v hv
        refine answered_same fun hs _ => hs c _ ho v ?_
        split at hv
        · cases hv
        · simpa [Object.edges] using Array.mem_of_getElem? hv
      · exact answered_failed _
    · exact answered_failed _
  · exact ⟨Store.edited_make (by simp [Object.edges]),
      fun _ _ => Heap.holds_ref.2 (Store.live_make _ _ _)⟩
  · exact ⟨Store.edited_make (by simp [Object.edges]),
      fun _ _ => Heap.holds_ref.2 (Store.live_make _ _ _)⟩
  · exact answered_same fun _ _ => Heap.holds_bool _ _
  · rename_i slot ho
    split
    · rename_i v
      exact answered_same fun hs _ => hs c _ ho v (by simp [Object.edges])
    · exact answered_failed _
  · exact answered_same fun _ _ => rfl
  · exact answered_same fun _ _ => trivial
  · split
    · exact ⟨.of_collector_eq rfl rfl, fun _ _ => Heap.holds_nil _⟩
    · exact answered_failed _
  · exact answered_failed _

theorem Method.answered_call (m : Method) (c : CellId) :
    Answered me s args (some c) (m.call me c args s) := by
  unfold Method.call
  split
  · exact m.answered_run c
  · exact answered_failed _

end

/-! ### Instructions -/

/-- What lies at an index of the stack is a method bound to the cell. -/
def BoundAt (h : Heap) (stack : Array Value) (callee : Nat) (f : CellId) : Prop :=
  ∃ b m, stack[callee]? = some (.ref b) ∧ h.object? b = some (.bound f m)

/-- The stack keeps what a request of the call at index `callee` refers to. -/
def Request.Kept (h : Heap) (stack : Array Value) (callee : Nat) : Request → Prop
  | .await f => BoundAt h stack callee f
  | .awaitFor _ _ => False
  | .start function args => function ∈ stack ∧ ∀ a ∈ args, a ∈ stack
  | .join fs _ _ => ∀ v ∈ fs, h.Holds v
  | _ => True

namespace Vm

/-- All operands are live. -/
def Sound (vm : Vm) (h : Heap) : Prop := ∀ v ∈ vm.stack, h.Holds v

/-- Machine, store and signal after an instruction of `vm` that began with the store `s`. -/
structure Safe (me : Caller) (vm : Vm) (s : Store) (r : Vm × Store × Signal) : Prop where
  edited : Edited me.storage (From vm.stack) s r.2.1
  sound : s.heap.Closed → (∀ p ∈ s.globals, s.heap.Holds p.2) → vm.Sound s.heap →
    r.1.Sound r.2.1.heap
  signal : s.heap.Closed → vm.Sound s.heap → ∀ callee q, r.2.2 = .suspended callee q →
    q.Kept r.2.1.heap r.1.stack callee

variable {me : Caller} {vm vm' : Vm} {s : Store} {v : Value}

theorem Sound.push {h : Heap} (hvm : vm.Sound h) (hv : h.Holds v) : (vm.push v).Sound h := by
  intro w hw
  rcases Array.mem_push.1 hw with hw | rfl
  · exact hvm w hw
  · exact hv

theorem Sound.dropTop {h : Heap} (hvm : vm.Sound h) : vm.dropTop.Sound h := by
  intro w hw
  rw [← Array.mem_toList_iff, Vm.dropTop, Array.toList_pop] at hw
  exact hvm w (Array.mem_toList_iff.1 (List.mem_of_mem_dropLast hw))

theorem Sound.truncate {h : Heap} (hvm : vm.Sound h) (n : Nat) : (vm.truncate n).Sound h := by
  intro w hw
  rw [← Array.mem_toList_iff, Vm.truncate, Array.toList_shrink] at hw
  exact hvm w (Array.mem_toList_iff.1 (List.mem_of_mem_take hw))

theorem Sound.evolves {h h' : Heap} (hvm : vm.Sound h) (he : h.Evolves h') : vm.Sound h' :=
  fun w hw => he.holds (hvm w hw)

theorem Sound.peek? {h : Heap} (hvm : vm.Sound h) (hv : vm.peek? = some v) : h.Holds v :=
  hvm v (Array.mem_of_back? hv)

/-- An instruction that leaves the store alone and does not wait. -/
theorem safe_same {signal : Signal}
    (hvm : s.heap.Closed → (∀ p ∈ s.globals, s.heap.Holds p.2) → vm.Sound s.heap →
      vm'.Sound s.heap)
    (hsignal : ∀ callee q, signal ≠ .suspended callee q) : Safe me vm s (vm', s, signal) :=
  ⟨.refl _ _ _, hvm, fun _ _ callee q hq => absurd hq (hsignal callee q)⟩

theorem safe_next (hvm : s.heap.Closed → (∀ p ∈ s.globals, s.heap.Holds p.2) → vm.Sound s.heap →
    vm'.Sound s.heap) : Safe me vm s (vm', s, .next) :=
  safe_same hvm (by simp)

theorem safe_failed {c : Cause} (hvm : vm.Sound s.heap → vm'.Sound s.heap) :
    Safe me vm s (vm', s, .failed c) :=
  safe_same (fun _ _ => hvm) (by simp)

/-- Failing leaves one more cell, the error, and the stack below the outermost call. -/
theorem fail_safe (me : Caller) (V : Value → Prop) (c : Cause) (vm : Vm) (s : Store) :
    Edited me.storage V s (vm.fail me c s).2 ∧
      (vm.Sound s.heap → (vm.fail me c s).1.Sound (vm.fail me c s).2.heap) := by
  have hmake : Edited me.storage V s (s.make me.storage (.error c.failure)).1 :=
    Store.edited_make (by simp [Object.edges])
  refine ⟨hmake, fun hvm => Sound.push ?_ (Heap.holds_ref.2 (Store.live_make _ _ _))⟩
  have hunwound : Sound { vm with frames := [], error := true } (vm.fail me c s).2.heap :=
    hvm.evolves hmake.evolves
  exact hunwound.truncate vm.entry

/-- The answer of a native call replaces callee and arguments by a live value. -/
theorem answer_safe {callee : Nat} {receiver : Option CellId} {p : Store × Reaction}
    (hp : Answered me s (vm.stack.drop (callee + 1)) receiver p)
    (hreceiver : ∀ f, receiver = some f → BoundAt s.heap vm.stack callee f) :
    Safe me vm s (vm.answer callee p) := by
  obtain ⟨s', r⟩ := p
  have hedited : Edited me.storage (From vm.stack) s s' :=
    hp.edited.mono fun v hv => hv.imp_left mem_of_mem_drop
  have hargs : vm.Sound s.heap → ∀ v ∈ vm.stack.drop (callee + 1), s.heap.Holds v :=
    fun hvm v hv => hvm v (mem_of_mem_drop hv)
  have hsame : vm.Sound s.heap → vm.Sound s'.heap := fun hvm => hvm.evolves hedited.evolves
  cases r with
  | value v =>
    refine ⟨hedited, fun hs _ hvm => ?_, fun _ _ _ _ hq => by cases hq⟩
    exact ((hsame hvm).truncate callee).push (hp.fits hs (hargs hvm))
  | failed c => exact ⟨hedited, fun _ _ => hsame, fun _ _ _ _ hq => by cases hq⟩
  | panicked p => exact ⟨hedited, fun _ _ => hsame, fun _ _ _ _ hq => by cases hq⟩
  | suspended q =>
    refine ⟨hedited, fun _ _ => hsame, fun hs hvm callee' q' hq => ?_⟩
    cases hq
    have hfits := hp.fits hs (hargs hvm)
    cases q with
    | await f =>
      obtain ⟨b, m, hb, ho⟩ := hreceiver f hfits
      exact ⟨b, m, hb, hedited.evolves.settled (Object.settled_bound f m) ho⟩
    | awaitFor f d => exact hfits
    | start f as => exact ⟨mem_of_mem_drop hfits.1, fun a ha => mem_of_mem_drop (hfits.2 a ha)⟩
    | join fs poll tagged => exact hfits
    | _ => trivial

theorem invoke_safe (argc : UInt64) : Safe me vm s (vm.invoke me argc s) := by
  unfold invoke
  split
  · exact safe_same (fun _ _ hvm => hvm) (by simp)
  split
  · exact safe_failed id
  simp only
  split
  · split
    · exact safe_next fun _ _ hvm => hvm
    · exact safe_failed id
  · exact answer_safe (Native.answered_call _) (by simp)
  · rename_i receiver m hderef
    refine answer_safe (Method.answered_call m receiver) fun f hf => ?_
    cases hf
    rw [Array.getD_eq_getD_getElem?] at hderef
    cases hget : vm.stack[vm.depth - (argc.toNat + 1)]? with
    | none => simp [hget, Heap.deref?] at hderef
    | some w =>
      rw [hget, Option.getD_some] at hderef
      cases w with
      | ref b => exact ⟨b, m, hget, hderef⟩
      | _ => cases hderef
  · exact safe_failed id

theorem ret_safe : Safe me vm s (vm.ret s) := by
  unfold ret
  split
  · exact safe_failed id
  · rename_i v hv
    split
    · exact safe_next fun _ _ hvm => hvm
    · refine safe_next fun _ _ hvm => (Sound.truncate ?_ _).push (hvm.peek? hv)
      exact hvm.dropTop

theorem pushOr_safe {r : Except Cause Value} (hvm : vm.Sound s.heap → vm'.Sound s.heap)
    (hr : s.heap.Closed → ∀ v, r = .ok v → s.heap.Holds v) : Safe me vm s (vm'.pushOr s r) := by
  cases r with
  | ok v => exact safe_next fun hs _ h => (hvm h).push (hr hs v rfl)
  | error c => exact safe_failed hvm

theorem arith_safe (op : Arith) (l r : Value) (hvm : ∀ h, vm.Sound h → vm'.Sound h) :
    Safe me vm s (vm'.pushOr (arith me op l r s).1 (arith me op l r s).2) := by
  have hpure : ∀ {α : Type} (e : Except Cause α) (f : α → Value),
      (∀ a c, f a ≠ .ref c) → Safe me vm s (vm'.pushOr s (e.map f)) := by
    intro α e f hf
    refine pushOr_safe (hvm s.heap) fun _ v hv c hc => ?_
    cases e with
    | ok a => cases hv; exact absurd hc (hf a c)
    | error e => cases hv
  unfold arith
  simp only
  split
  · exact hpure _ _ (by simp)
  · split
    · exact hpure _ _ (by simp)
    · split
      · rename_i a b _ _
        have hedit : Edited me.storage (From vm.stack) s (s.make me.storage (.str (a ++ b))).1 :=
          Store.edited_make (by simp [Object.edges])
        refine ⟨hedit, fun _ _ h => ?_, fun _ _ _ _ hq => by cases hq⟩
        exact (hvm _ (h.evolves hedit.evolves)).push (Heap.holds_ref.2 (Store.live_make _ _ _))
      · exact safe_failed (hvm s.heap)

/-- Attributes of live objects are live. -/
theorem holds_attribute? {h : Heap} {receiver : Value} {name : String} (hh : h.Closed)
    (hv : h.attribute? receiver name = some (.value v)) : h.Holds v := by
  obtain ⟨o, ho, hattr⟩ := Option.bind_eq_some_iff.1 hv
  cases receiver with
  | ref c =>
    unfold Object.attribute? at hattr
    split at hattr
    · cases hattr
      exact Heap.holds_int _ _
    · cases hattr
      exact Heap.holds_bool _ _
    · cases hattr
      exact hh c _ ho _ (by simp [Object.edges])
    · cases hattr
      exact Heap.holds_int _ _
    · cases hattr
      exact hh c _ ho _ (by simp [Object.edges])
    · simp at hattr
  | _ => cases ho

theorem exec_safe {code : Code} {base : Nat} (instr : Instr)
    (hcode : s.heap.Closed → ∀ v ∈ code.constants, s.heap.Holds v) :
    Safe me vm s (vm.exec me code base instr s) := by
  cases instr with
  | const i =>
    refine pushOr_safe id fun hs v hv => ?_
    unfold constant at hv
    split at hv
    · rename_i w hw
      cases hv
      exact hcode hs v (Array.mem_of_getElem? hw)
    · cases hv
  | arg i =>
    simp only [exec]
    split
    · exact safe_failed id
    · split
      · rename_i v hv
        exact safe_next fun _ _ hvm => hvm.push (hvm v (Array.mem_of_getElem? hv))
      · exact safe_failed id
  | global i =>
    simp only [exec]
    split
    · exact safe_failed id
    · split
      · rename_i name _ _ v hv
        obtain ⟨l₁, l₂, hsplit, -⟩ := List.lookup_eq_some_iff.1 hv
        exact safe_next fun _ hglobals hvm => hvm.push (hglobals (name, v) (by simp [hsplit]))
      · exact safe_failed id
  | arith op =>
    simp only [exec]
    split
    · exact safe_failed id
    · split
      · exact safe_failed Sound.dropTop
      · exact arith_safe op _ _ fun _ hvm => hvm.dropTop.dropTop
  | call argc => exact invoke_safe argc
  | getAttr i =>
    simp only [exec]
    split
    · exact safe_failed id
    · split
      · exact safe_failed id
      · rename_i receiver hreceiver
        split
        · rename_i v hv
          exact safe_next fun hs _ hvm => hvm.dropTop.push (holds_attribute? hs hv)
        · rename_i c m hm
          have hedit : Edited me.storage (From vm.stack) s (s.make me.storage (.bound c m)).1 := by
            refine Store.edited_make fun v hv => .inl ?_
            obtain rfl : v = .ref c := by simpa [Object.edges] using hv
            exact Array.mem_of_back? hreceiver
          refine ⟨hedit, fun _ _ hvm => ?_, fun _ _ _ _ hq => by cases hq⟩
          exact (hvm.dropTop.evolves hedit.evolves).push (Heap.holds_ref.2 (Store.live_make _ _ _))
        · exact safe_failed Sound.dropTop
  | setAttr i =>
    simp only [exec]
    split
    · exact safe_failed id
    · split
      · exact safe_failed id
      · rename_i v hv
        split
        · exact safe_failed Sound.dropTop
        · split
          · rename_i c o hc
            have hedit : Edited me.storage (From vm.stack) s (s.modifyHeap (·.setObject c o)) :=
              Store.edited_attributeChange hc (.inl (Array.mem_of_back? hv))
            refine ⟨hedit, fun _ _ hvm => ?_, fun _ _ _ _ hq => by cases hq⟩
            exact hvm.dropTop.dropTop.evolves hedit.evolves
          · exact safe_failed fun hvm => hvm.dropTop.dropTop
  | pop =>
    simp only [exec]
    split
    · exact safe_failed id
    · exact safe_next fun _ _ hvm => hvm.dropTop
  | ret => exact ret_safe
  | raise =>
    simp only [exec]
    split
    · exact safe_failed id
    · refine safe_same (fun _ _ hvm => hvm.dropTop) fun callee q => ?_
      unfold raised
      split
      · simp
      · split <;> simp

/-- One instruction of a machine. -/
theorem step_safe (me : Caller) (vm : Vm) (s : Store) : Safe me vm s (vm.step me s) := by
  unfold step
  split
  · exact safe_next fun _ _ hvm => hvm
  · rename_i frame rest _
    split
    · rename_i code hcode
      let vm' : Vm := { vm with frames := { frame with ip := frame.ip + 1 } :: rest }
      split
      · rename_i instr _
        have hsafe : Safe me vm' s (vm'.exec me code frame.base instr s) :=
          exec_safe instr fun hs v hv =>
            hs frame.code _ hcode v (by simpa [Object.edges] using hv)
        exact ⟨hsafe.edited, hsafe.sound, hsafe.signal⟩
      · have hsafe : Safe me (vm'.push .nil) s ((vm'.push .nil).ret s) := ret_safe
        have hpush : ∀ h, vm.Sound h → (vm'.push .nil).Sound h := fun h hvm =>
          Sound.push (show vm'.Sound h from hvm) (Heap.holds_nil h)
        refine ⟨hsafe.edited.mono fun v hv => ?_, fun hs hg hvm => hsafe.sound hs hg (hpush _ hvm),
          fun hs hvm => hsafe.signal hs (hpush _ hvm)⟩
        rcases hv with hv | hv
        · rcases Array.mem_push.1 hv with hv | rfl
          · exact .inl hv
          · exact .inr (by simp)
        · exact .inr hv
    · exact safe_failed id

/-- A call is entered with a function and arguments from outside. -/
theorem enter_safe (me : Caller) (function : Value) (args : Array Value) (vm : Vm) (s : Store) :
    Safe me ((vm.push function).pushAll args) s (vm.enter me function args s) := by
  let laid := ({ vm with error := false, entry := vm.depth }.push function).pushAll args
  have hsafe : Safe me laid s (laid.invoke me (UInt64.ofNat args.size) s) := invoke_safe _
  exact ⟨hsafe.edited, hsafe.sound, hsafe.signal⟩

theorem Sound.pushAll {h : Heap} {args : Array Value} (hvm : vm.Sound h)
    (hargs : ∀ v ∈ args, h.Holds v) : (vm.pushAll args).Sound h := by
  intro v hv
  rcases Array.mem_append.1 hv with hv | hv
  · exact hvm v hv
  · exact hargs v hv

end Vm

end ScriptCore
