import ScriptCore.Heap.Equality
import ScriptCore.Proofs.Double.Exact

/-!
# Equality of values

Equality is asked of the left value, by a rule that depends on its kind. All the rules together
compare one thing: what a value stands for. A number that denotes an integer stands for the integer,
a string for its text, a mutex for its lock, any other object for itself, and a NaN for nothing. The
hash of a value is a function of what it stands for, too.

* `Identity`, `Heap.identity?`: what a value stands for;
* `Heap.equal_iff`: values are equal if they stand for the same;
* `Identity.hashKey`, `Heap.hashKey_eq`: what is hashed;
* `equality_is_lawful`: equality is symmetric, transitive, reflexive but for NaNs, and equal values
  have equal hashes.
-/

namespace ScriptCore

/-- What a value stands for. -/
inductive Identity
  | nil
  | bool (b : Bool)
  | integer (n : Int64)
  /-- A number that denotes no 64-bit integer. -/
  | number (x : Double)
  | text (s : String)
  | lock (l : LockId)
  | cell (c : CellId)
  deriving DecidableEq, Repr

/-- What is hashed of a value that stands for this. -/
def Identity.hashKey : Identity → HashKey
  | .nil => .word 0
  | .bool b => .word (if b then 1 else 0)
  | .integer n => .word n.toUInt64
  | .number x => .word x.bits
  | .text s => .text s
  | .lock l => .lock l
  | .cell c => .cell c

/-- What a number stands for if it is one. -/
def Double.identity (x : Double) : Identity :=
  match x.exactInt? with
  | some n => .integer n
  | none => .number x

/-- Numbers are equal if they stand for the same. -/
theorem Double.numEq_iff_identity {x y : Double} :
    x.numEq y = true ↔ x.isNaN = false ∧ y.isNaN = false ∧ x.identity = y.identity := by
  unfold identity
  constructor
  · intro h
    have hsymm : y.numEq x = true := numEq_comm x y ▸ h
    refine ⟨(numEq_iff.1 h).1, (numEq_iff.1 hsymm).1, ?_⟩
    rw [exactInt?_eq_of_numEq h]
    cases hy : y.exactInt? with
    | some n => rfl
    | none =>
      -- both zeros denote an integer, so equal bits are left
      rcases (numEq_iff.1 h).2 with rfl | ⟨-, hzero⟩
      · rfl
      · rw [exactInt?_of_isZero hzero] at hy
        cases hy
  · rintro ⟨hx, -, h⟩
    cases hxn : x.exactInt? <;> cases hyn : y.exactInt? <;> rw [hxn, hyn] at h <;> cases h
    · exact numEq_iff.2 ⟨hx, .inl rfl⟩
    · exact numEq_of_exactInt? hxn hyn

namespace Heap

/-- What a value stands for; a NaN stands for nothing. -/
def identity? (h : Heap) : Value → Option Identity
  | .nil => some .nil
  | .bool b => some (.bool b)
  | .int n => some (.integer n)
  | .float x => if x.isNaN then none else some x.identity
  | .ref c =>
      match h.object? c with
      | some (.str s) => some (.text s)
      | some (.mutex l) => some (.lock l)
      | _ => some (.cell c)

variable {h : Heap} {a b : Value}

/-! ### Which values stand for what -/

theorem identity?_float {x : Double} {k : Identity} :
    h.identity? (.float x) = some k ↔ x.isNaN = false ∧ x.identity = k := by
  simp [identity?]

/-- A number stands for an integer or for itself. -/
theorem cases_of_identity?_float {x : Double} {k : Identity}
    (hx : h.identity? (.float x) = some k) : (∃ n, k = .integer n) ∨ k = .number x := by
  obtain ⟨-, rfl⟩ := identity?_float.1 hx
  unfold Double.identity
  split
  · exact .inl ⟨_, rfl⟩
  · exact .inr rfl

/-- An object stands for its text, its lock or itself. -/
theorem cases_of_identity?_ref {c : CellId} {k : Identity} (hc : h.identity? (.ref c) = some k) :
    (∃ s, k = .text s) ∨ (∃ l, k = .lock l) ∨ k = .cell c := by
  simp only [identity?] at hc
  split at hc <;> cases hc
  · exact .inl ⟨_, rfl⟩
  · exact .inr (.inl ⟨_, rfl⟩)
  · exact .inr (.inr rfl)

theorem identity?_eq_nil_iff : h.identity? a = some .nil ↔ a = .nil := by
  cases a with
  | float x => exact iff_of_false (fun hx => by simpa using cases_of_identity?_float hx) nofun
  | ref c => exact iff_of_false (fun hc => by simpa using cases_of_identity?_ref hc) nofun
  | _ => simp [identity?]

theorem identity?_eq_bool_iff {x : Bool} : h.identity? a = some (.bool x) ↔ a = .bool x := by
  cases a with
  | float x => exact iff_of_false (fun hx => by simpa using cases_of_identity?_float hx) nofun
  | ref c => exact iff_of_false (fun hc => by simpa using cases_of_identity?_ref hc) nofun
  | _ => simp [identity?]

theorem identity?_float_eq_integer_iff {x : Double} {n : Int64} :
    h.identity? (.float x) = some (.integer n) ↔ x.exactInt? = some n := by
  rw [identity?_float, Double.identity]
  constructor
  · rintro ⟨-, hx⟩
    split at hx <;> cases hx
    assumption
  · intro hx
    rw [hx]
    exact ⟨Double.isNaN_eq_false_of_isFinite (Double.exactInt?_eq_some_iff.1 hx).1, rfl⟩

theorem identity?_eq_text_iff {s : String} :
    h.identity? a = some (.text s) ↔ h.str? a = some s := by
  cases a with
  | ref c =>
    simp only [identity?, str?, deref?]
    split <;> simp_all
  | float x => exact iff_of_false (fun hx => by simpa using cases_of_identity?_float hx) nofun
  | _ => simp [identity?, str?, deref?]

theorem identity?_eq_lock_iff {l : LockId} :
    h.identity? a = some (.lock l) ↔ h.mutex? a = some l := by
  cases a with
  | ref c =>
    simp only [identity?, mutex?, deref?]
    split <;> simp_all
  | float x => exact iff_of_false (fun hx => by simpa using cases_of_identity?_float hx) nofun
  | _ => simp [identity?, mutex?, deref?]

/-- Only references to a cell stand for it. -/
theorem cell?_of_identity? {c : CellId} (ha : h.identity? a = some (.cell c)) :
    a.cell? = some c := by
  cases a with
  | ref d =>
    have hd : c = d := by simpa using cases_of_identity?_ref ha
    exact congrArg some hd.symm
  | float x => simpa using cases_of_identity?_float ha
  | _ => simp [identity?] at ha

theorem cell?_beq_iff {c : CellId} (hc : h.identity? (.ref c) = some (.cell c)) :
    (a.cell? == some c) = true ↔ h.identity? a = some (.cell c) := by
  rw [beq_iff_eq]
  refine ⟨fun ha => ?_, cell?_of_identity?⟩
  cases a with
  | ref d =>
    cases ha
    exact hc
  | _ => cases ha

/-! ### Equality -/

/-- What a value is equal to if it stands for something. -/
theorem equal_iff_of_identity? {k : Identity} (ha : h.identity? a = some k) :
    h.equal a b = true ↔ h.identity? b = some k := by
  cases a with
  | nil =>
    cases ha
    rw [identity?_eq_nil_iff]
    cases b <;> simp [equal]
  | bool x =>
    cases ha
    rw [identity?_eq_bool_iff]
    cases b with
    | bool y => exact beq_iff_eq.trans ⟨fun heq => heq ▸ rfl, fun heq => by cases heq; rfl⟩
    | _ => simp [equal]
  | int n =>
    cases ha
    cases b with
    | float y => simp [equal, identity?_float_eq_integer_iff]
    | ref c =>
      exact iff_of_false (by simp [equal]) fun hc => by simpa using cases_of_identity?_ref hc
    | int m => simp [equal, identity?, eq_comm (a := n)]
    | _ => simp [equal, identity?]
  | float x =>
    obtain ⟨hx, rfl⟩ := identity?_float.1 ha
    cases b with
    | int n =>
      have hsymm : h.identity? (.int n) = some x.identity ↔
          h.identity? (.float x) = some (.integer n) := by
        rw [identity?_float]
        exact ⟨fun h => ⟨hx, (Option.some.inj h).symm⟩, fun h => congrArg some h.2.symm⟩
      simp [hsymm, equal, identity?_float_eq_integer_iff]
    | float y =>
      rw [identity?_float, show h.equal (.float x) (.float y) = x.numEq y from rfl,
        Double.numEq_iff_identity, eq_comm (a := x.identity)]
      exact and_iff_right hx
    | ref c =>
      refine iff_of_false (by simp [equal]) fun hc => ?_
      rcases cases_of_identity?_float ha with ⟨n, hk⟩ | hk <;>
        simpa [hk] using cases_of_identity?_ref hc
    | _ =>
      refine iff_of_false (by simp [equal]) fun hc => ?_
      rcases cases_of_identity?_float ha with ⟨n, hk⟩ | hk <;> simp [hk, identity?] at hc
  | ref c =>
    cases ho : h.object? c with
    | none =>
      simp only [identity?, ho] at ha
      cases ha
      simp only [equal, ho]
      exact cell?_beq_iff (by simp only [identity?, ho])
    | some o =>
      simp only [identity?, ho] at ha
      cases o with
      | str s =>
        cases ha
        simp only [equal, ho]
        rw [identity?_eq_text_iff, beq_iff_eq]
      | mutex l =>
        cases ha
        simp only [equal, ho]
        rw [identity?_eq_lock_iff, beq_iff_eq]
      | _ =>
        cases ha
        simp only [equal, ho]
        exact cell?_beq_iff (by simp only [identity?, ho])

/-- A NaN is equal to nothing. -/
theorem equal_of_identity?_eq_none (ha : h.identity? a = none) : h.equal a b = false := by
  cases a with
  | float x =>
    have hx : x.isNaN = true := by simpa [identity?] using ha
    cases b with
    | float y => simp [equal, Double.numEq, hx]
    | int n =>
      have hnone : x.exactInt? ≠ some n := fun hn => by
        have hfinite := (Double.exactInt?_eq_some_iff.1 hn).1
        exact Bool.false_ne_true ((Double.isNaN_eq_false_of_isFinite hfinite).symm.trans hx)
      simpa [equal] using hnone
    | _ => rfl
  | ref c =>
    simp only [identity?] at ha
    split at ha <;> cases ha
  | _ => cases ha

/-- Values are equal if they stand for the same. -/
theorem equal_iff :
    h.equal a b = true ↔ ∃ k, h.identity? a = some k ∧ h.identity? b = some k := by
  cases ha : h.identity? a with
  | none => simp [equal_of_identity?_eq_none ha]
  | some k =>
    rw [equal_iff_of_identity? ha]
    simp

theorem identity?_isSome_iff :
    (h.identity? a).isSome = true ↔ ∀ x, a = .float x → x.isNaN = false := by
  cases a with
  | float x => simp [identity?]
  | ref c =>
    simp only [identity?]
    split <;> simp
  | _ => simp [identity?]

/-- What is hashed is a function of what a value stands for. -/
theorem hashKey_eq {k : Identity} (ha : h.identity? a = some k) : h.hashKey a = k.hashKey := by
  cases a with
  | float x =>
    obtain ⟨-, rfl⟩ := identity?_float.1 ha
    simp only [hashKey, Double.identity]
    cases x.exactInt? <;> rfl
  | ref c =>
    cases ho : h.object? c with
    | none =>
      simp only [identity?, ho] at ha
      cases ha
      simp only [hashKey, ho, Identity.hashKey]
    | some o =>
      simp only [identity?, ho] at ha
      cases o <;> cases ha <;> simp only [hashKey, ho, Identity.hashKey]
  | _ =>
    cases ha
    rfl

end Heap

/-- **Equality is a lawful key relation.** It is symmetric and transitive, a value is equal to
itself unless it is a NaN, and equal values have the same hash, whatever the hasher makes of what is
written to it. -/
theorem equality_is_lawful (h : Heap) (a b c : Value) :
    h.equal a b = h.equal b a ∧
    (h.equal a b = true → h.equal b c = true → h.equal a c = true) ∧
    (h.equal a a = true ↔ ∀ x, a = .float x → x.isNaN = false) ∧
    (h.equal a b = true → ∀ hash : HashKey → UInt64, hash (h.hashKey a) = hash (h.hashKey b)) := by
  refine ⟨?_, ?_, ?_, ?_⟩
  · rw [Bool.eq_iff_iff, Heap.equal_iff, Heap.equal_iff]
    exact exists_congr fun _ => and_comm
  · intro hab hbc
    obtain ⟨k, ha, hb⟩ := Heap.equal_iff.1 hab
    exact (Heap.equal_iff_of_identity? ha).2 ((Heap.equal_iff_of_identity? hb).1 hbc)
  · rw [Heap.equal_iff, ← Heap.identity?_isSome_iff (h := h), Option.isSome_iff_exists]
    exact exists_congr fun _ => and_self_iff
  · intro hab hash
    obtain ⟨k, ha, hb⟩ := Heap.equal_iff.1 hab
    rw [Heap.hashKey_eq ha, Heap.hashKey_eq hb]

/-- Minus zero, the integer zero and zero: the first two and the last two are equal by what the
numbers denote, so the two zeros are, with one hash for all three. -/
theorem equality_is_lawful_zeros :
    let h := Heap.empty
    let minus : Value := .float ⟨0x8000000000000000⟩
    let plus : Value := .float ⟨0⟩
    h.equal minus (.int 0) = true ∧ h.equal (.int 0) plus = true ∧ h.equal minus plus = true ∧
      ∀ hash : HashKey → UInt64, hash (h.hashKey minus) = hash (h.hashKey plus) := by
  intro h minus plus
  have hminus : h.equal minus (.int 0) = true := by decide +kernel
  have hplus : h.equal (.int 0) plus = true := by decide +kernel
  have hzeros : h.equal minus plus = true :=
    (equality_is_lawful h minus (.int 0) plus).2.1 hminus hplus
  exact ⟨hminus, hplus, hzeros, (equality_is_lawful h minus plus plus).2.2.2 hzeros⟩

end ScriptCore
