import ScriptCore.Proofs.Rendezvous.Trigger
import ScriptCore.Proofs.World.Operations

/-!
# The limit as scripts see it

The limit is a word without a sign, at least one. Scripts have integers with a sign only: they read
a limit as it is as long as it fits one, and everything else as a negative number, which they cannot
set as a limit.

* `Collector.Operates.limit_pos`: no operation makes the limit zero, so it is at least one in every
  state of every run;
* `toInt_toInt64`: a word read with a sign;
* `Native.AsksFor`, `setAllocLimit_cases`: a script sets the limit to a positive integer, or fails
  and changes nothing;
* `Store.ShowsLimit`: a script reads the limit, and can set it to what it has read;
* `limit_shown_iff`: in every state of every run that is so exactly if the limit is below `2 ^ 63`.
-/

namespace ScriptCore

/-! ### The limit is positive -/

namespace Collector

variable {g g' : Collector}

theorem Operation.limit_pos (op : Operation) (hg : 1 ≤ g.limit.toNat) :
    1 ≤ (op.apply g).limit.toNat := by
  cases op with
  | setLimit limit => exact Ruled.toNat_limit_pos limit
  | retire s =>
    rcases retire_cases g s with h | h
    · obtain ⟨st, -, -, heq⟩ := Tidy.retire_cases h
      rw [heq]
      exact hg
    · rw [h]
      exact hg
  | removeRoot id =>
    rcases removeRoot_cases g id with h | h <;> rw [apply, h] <;> exact hg
  | _ => exact hg

theorem Operates.limit_pos (h : g.Operates g') (hg : 1 ≤ g.limit.toNat) :
    1 ≤ g'.limit.toNat := by
  induction h with
  | refl => exact hg
  | tail _ hop ih =>
    obtain ⟨op, rfl⟩ := hop
    exact op.limit_pos ih

end Collector

/-- A run begins with a limit that has passed its check, and it stays positive. -/
theorem Run.limit_pos {ok : Chronicle → Act → Prop} {c : Chronicle} (hc : Run ok c) :
    1 ≤ c.world.store.collector.limit.toNat := by
  induction hc with
  | @new collector isolates s hs =>
    have hlimit := CollectorSettings.allocLimit_ne_zero hs
    refine (Collector.operates_new hs).limit_pos (Nat.one_le_iff_ne_zero.2 fun hzero => hlimit ?_)
    exact UInt64.toNat_inj.1 hzero
  | @act c a _ _ ih => exact (Act.operates c.toHosted a).limit_pos ih

/-! ### Words with and without a sign -/

/-- A word read with a sign: what does not fit comes out negative. -/
theorem toInt_toInt64 (n : UInt64) :
    n.toInt64.toInt = if n.toNat < 2 ^ 63 then (n.toNat : ℤ) else n.toNat - 2 ^ 64 := by
  have hword : n.toInt64.toInt = n.toBitVec.toInt := by
    rw [← Int64.toInt_toBitVec, UInt64.toBitVec_toInt64]
  have hnat : n.toBitVec.toNat = n.toNat := rfl
  rw [hword, BitVec.toInt_eq_toNat_cond, hnat]
  split <;> split <;> omega

/-- A positive integer is the same without its sign. -/
theorem toNat_toUInt64 {n : Int64} (hn : 0 < n.toInt) : (n.toUInt64.toNat : ℤ) = n.toInt := by
  have hlt := n.toInt_lt
  have hword := toInt_toInt64 n.toUInt64
  rw [Int64.toInt64_toUInt64] at hword
  have hbound := n.toUInt64.toNat_lt
  split at hword <;> omega

/-! ### Reading and setting the limit -/

namespace Native

variable {me : Caller} {s : Store} {args : Array Value} {n : Int64}

theorem getAllocLimit_call (me : Caller) (s : Store) :
    getAllocLimit.call me #[] s = (s, .value (.int s.collector.limit.toInt64)) := rfl

theorem setAllocLimit_call (me : Caller) (s : Store) (n : Int64) :
    setAllocLimit.call me #[.int n] s =
      if n.toInt ≤ 0 then (s, .failed (.limitNotPositive n))
      else ({ s with collector := s.collector.setLimit n.toUInt64 }, .value .nil) := rfl

/-- The arguments ask for a limit that can be set. -/
def AsksFor (args : Array Value) (n : Int64) : Prop := args = #[.int n] ∧ 0 < n.toInt

/-- What is wrong with arguments that ask for no limit. -/
inductive Amiss (h : Heap) (args : Array Value) : Cause → Prop
  | count : args.size ≠ 1 → Amiss h args (.arity "set_alloc_limit" (.exact 1) args.size)
  | type {v : Value} : args = #[v] → v.int? = none →
      Amiss h args (.argumentType 0 .int (h.typeOf v))
  | sign {n : Int64} : args = #[.int n] → n.toInt ≤ 0 → Amiss h args (.limitNotPositive n)

/-- The limit becomes what the arguments ask for, or nothing changes at all. -/
theorem setAllocLimit_cases (me : Caller) (args : Array Value) (s : Store) :
    (∃ n, AsksFor args n ∧ setAllocLimit.call me args s =
      ({ s with collector := s.collector.setLimit n.toUInt64 }, .value .nil)) ∨
    ∃ cause, Amiss s.heap args cause ∧ setAllocLimit.call me args s = (s, .failed cause) := by
  by_cases hsize : args.size = 1
  · obtain ⟨v, rfl⟩ : ∃ v, args = #[v] := Array.size_eq_one_iff.1 hsize
    cases v with
    | int n =>
      by_cases hn : n.toInt ≤ 0
      · exact .inr ⟨_, .sign rfl hn, by rw [setAllocLimit_call, if_pos hn]⟩
      · exact .inl ⟨n, ⟨rfl, by omega⟩, by rw [setAllocLimit_call, if_neg hn]⟩
    | _ => exact .inr ⟨_, .type rfl rfl, rfl⟩
  · refine .inr ⟨_, .count hsize, ?_⟩
    have hcount : (Arity.exact 1).admits args.size = false := by
      simpa [Arity.admits] using hsize
    unfold call Arity.check
    rw [show setAllocLimit.arity = .exact 1 from rfl, hcount]
    rfl

theorem Amiss.not_asksFor {h : Heap} {cause : Cause} (hargs : Amiss h args cause) :
    ¬ AsksFor args n := by
  rintro ⟨rfl, hn⟩
  cases hargs with
  | count hsize => exact hsize rfl
  | type heq hint =>
    cases heq
    cases hint
  | sign heq hle =>
    cases heq
    omega

/-- What was asked for is the limit from now on, and the next threshold. -/
theorem AsksFor.limit (h : AsksFor args n) (g : Collector) :
    ((g.setLimit n.toUInt64).limit.toNat : ℤ) = n.toInt ∧
      ((g.setLimit n.toUInt64).threshold : ℤ) = n.toInt := by
  have hnat := toNat_toUInt64 h.2
  have hne : n.toUInt64 ≠ 0 := fun hzero => by
    rw [hzero] at hnat
    exact absurd hnat.symm h.2.ne'
  simp only [Collector.setLimit, if_neg hne]
  exact ⟨hnat, hnat⟩

end Native

/-- A script reads a positive number that is the limit, and sets the limit to it without changing
it. -/
def Store.ShowsLimit (me : Caller) (s : Store) : Prop :=
  ∃ n : Int64, Native.getAllocLimit.call me #[] s = (s, .value (.int n)) ∧
    0 < n.toInt ∧ n.toInt = s.collector.limit.toNat ∧
    ∃ s', Native.setAllocLimit.call me #[.int n] s = (s', .value .nil) ∧
      s'.collector.limit = s.collector.limit

namespace Store

variable {me : Caller} {s : Store}

theorem showsLimit_of_lt (hpos : 1 ≤ s.collector.limit.toNat)
    (hlt : s.collector.limit.toNat < 2 ^ 63) : s.ShowsLimit me := by
  have hint := toInt_toInt64 s.collector.limit
  rw [if_pos hlt] at hint
  have hne : s.collector.limit ≠ 0 := fun hzero => by simp [hzero] at hpos
  have hset : (s.collector.setLimit s.collector.limit).limit = s.collector.limit := if_neg hne
  refine ⟨_, Native.getAllocLimit_call me s, by omega, hint,
    { s with collector := s.collector.setLimit s.collector.limit }, ?_, hset⟩
  rw [Native.setAllocLimit_call, if_neg (by omega), UInt64.toUInt64_toInt64]

/-- A limit that does not fit is read as a negative number, and that is refused. -/
theorem limit_of_le (hle : 2 ^ 63 ≤ s.collector.limit.toNat) :
    s.collector.limit.toInt64.toInt = s.collector.limit.toNat - 2 ^ 64 ∧
      Native.setAllocLimit.call me #[.int s.collector.limit.toInt64] s =
        (s, .failed (.limitNotPositive s.collector.limit.toInt64)) := by
  have hint := toInt_toInt64 s.collector.limit
  have hlt := s.collector.limit.toNat_lt
  rw [if_neg (by omega)] at hint
  exact ⟨hint, by rw [Native.setAllocLimit_call, if_pos (by omega)]⟩

theorem ShowsLimit.lt (h : s.ShowsLimit me) : s.collector.limit.toNat < 2 ^ 63 := by
  obtain ⟨n, -, -, hn, -⟩ := h
  have hlt := n.toInt_lt
  omega

end Store

/-- **What scripts see of the limit.** In every state of every run, whoever has set the limit and to
what, it is positive. A script reads it as it is and can set it to what it has read exactly if it is
below `2 ^ 63`; any other limit is read as a negative number, and setting that fails. A script that
sets the limit gets what it asks for, which is a positive integer; any other arguments fail and
leave everything as it is. -/
theorem limit_shown_iff {c : Chronicle} (hc : Run (fun _ _ => True) c) (me : Caller) :
    let s := c.world.store
    let limit := s.collector.limit
    1 ≤ limit.toNat ∧ (s.ShowsLimit me ↔ limit.toNat < 2 ^ 63) ∧
      Native.getAllocLimit.call me #[] s = (s, .value (.int limit.toInt64)) ∧
      (2 ^ 63 ≤ limit.toNat → limit.toInt64.toInt = limit.toNat - 2 ^ 64 ∧
        Native.setAllocLimit.call me #[.int limit.toInt64] s =
          (s, .failed (.limitNotPositive limit.toInt64))) ∧
      ∀ args : Array Value,
        (∃ n s', Native.AsksFor args n ∧
          Native.setAllocLimit.call me args s = (s', .value .nil) ∧
          (s'.collector.limit.toNat : ℤ) = n.toInt ∧ (s'.collector.threshold : ℤ) = n.toInt) ∨
        (∀ n, ¬ Native.AsksFor args n) ∧ ∃ cause, Native.Amiss s.heap args cause ∧
          Native.setAllocLimit.call me args s = (s, .failed cause) := by
  intro s limit
  refine ⟨hc.limit_pos, ⟨Store.ShowsLimit.lt, Store.showsLimit_of_lt hc.limit_pos⟩,
    Native.getAllocLimit_call me s, Store.limit_of_le, fun args => ?_⟩
  rcases Native.setAllocLimit_cases me args s with ⟨n, hasks, hcall⟩ | ⟨cause, hamiss, hcall⟩
  · exact .inl ⟨n, _, hasks, hcall, hasks.limit s.collector⟩
  · exact .inr ⟨fun n => hamiss.not_asksFor, cause, hamiss, hcall⟩

/-- A new machine with the greatest limit. -/
def Chronicle.boundless : Chronicle :=
  { world := { store := ((Store.new { allocLimit := 0xffffffffffffffff } {}).toOption.getD
      .standard) } }

theorem run_boundless : Run (fun _ _ => True) .boundless :=
  .new (show Store.new { allocLimit := 0xffffffffffffffff } {} = .ok _ from rfl)

/-- The greatest limit is read as minus one. -/
theorem limit_shown_iff_boundless :
    Run (fun _ _ => True) .boundless ∧
      ¬ Chronicle.boundless.world.store.ShowsLimit ⟨0, 0, ""⟩ :=
  ⟨run_boundless, fun h =>
    absurd ((limit_shown_iff run_boundless ⟨0, 0, ""⟩).2.1.1 h) (by decide)⟩

/-- Not every limit that a machine can have is shown to scripts. -/
theorem not_limit_shown_boundless :
    ¬ ∀ c, Run (fun _ _ => True) c → ∀ me, c.world.store.ShowsLimit me := by
  intro h
  have hlt := (h _ run_boundless ⟨0, 0, ""⟩).lt
  exact absurd hlt (by decide)

end ScriptCore
