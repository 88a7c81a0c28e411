import BlockScript.Proofs.NumberReading
/-!
When equality is numeric.

Comparing two values by size reads both as numbers, and comparing them for equality looks at their
texts. The text of a value that is a number determines the number, so values that are equal are
equal as numbers. The converse needs both values to be spelled as the number is written: a number
that is spelled otherwise, a truth value and null are neither less than, greater than nor equal to
the number they stand for.
-/

namespace BlockScript

open Float.Model Float.Model.UnpackedFloat

/-- The order of two floats, seen from the other one. -/
theorem unpacked_compare_swap (u v : UnpackedFloat) :
    UnpackedFloat.compare v u = (UnpackedFloat.compare u v).map Ordering.swap := by
  cases u with
  | notANumber => cases v <;> rfl
  | infinity s =>
    cases v with
    | notANumber => cases s <;> rfl
    | infinity t => cases s <;> cases t <;> rfl
    | zero t => cases s <;> rfl
    | finite t n f some => cases s <;> rfl
  | zero s =>
    cases v with
    | notANumber => rfl
    | infinity t => cases t <;> rfl
    | zero t => rfl
    | finite t n f some => cases t <;> rfl
  | finite s m e pos =>
    cases v with
    | notANumber => cases s <;> rfl
    | infinity t => cases s <;> cases t <;> rfl
    | zero t => cases s <;> rfl
    | finite t n f some =>
      have magnitudes : (compare f e).then (compare n m) =
          ((compare e f).then (compare m n)).swap := by
        rw [Ordering.swap_then, ← Std.OrientedCmp.eq_swap, ← Std.OrientedCmp.eq_swap]
      cases s <;> cases t <;> simp [UnpackedFloat.compare, magnitudes]

/-- Numbers are in one of three orders, and all ways to compare them go by it. -/
theorem exists_order {x y : Float} (hx : x.isNaN = false) (hy : y.isNaN = false) :
    ∃ order : Ordering, (x < y ↔ order = .lt) ∧ ((x == y) = true ↔ order = .eq) ∧
      (x > y ↔ order = .gt) ∧ (x ≤ y ↔ order ≠ .gt) ∧ (x ≥ y ↔ order ≠ .lt) := by
  have left := Value.isNaN_eq_false_iff.mp hx
  have right := Value.isNaN_eq_false_iff.mp hy
  have backwards := unpacked_compare_swap x.toModel.unpack y.toModel.unpack
  obtain ⟨order, compared⟩ :
      ∃ order, UnpackedFloat.compare x.toModel.unpack y.toModel.unpack = some order := by
    revert left right
    generalize x.toModel.unpack = u
    generalize y.toModel.unpack = v
    fun_cases UnpackedFloat.compare u v <;> simp
  rw [compared] at backwards
  refine ⟨order, ?_, ?_, ?_, ?_, ?_⟩
  · rw [float_lt_iff, UnpackedFloat.lt, compared]
    cases order <;> decide
  · change UnpackedFloat.beq x.toModel.unpack y.toModel.unpack = true ↔ _
    rw [UnpackedFloat.beq, compared]
    cases order <;> decide
  · rw [gt_iff_lt, float_lt_iff, UnpackedFloat.lt, backwards]
    cases order <;> decide
  · rw [float_le_iff, UnpackedFloat.le, compared]
    cases order <;> decide
  · rw [ge_iff_le, float_le_iff, UnpackedFloat.le, backwards]
    cases order <;> decide

namespace Value

theorem beq_trans {x y z : Float} (left : (x == y) = true) (right : (y == z) = true) :
    (x == z) = true := by
  obtain ⟨hx, hy⟩ := isNaN_of_eq left
  have hz := (isNaN_of_eq right).2
  rw [← numberText_eq_iff hx hy] at left
  rw [← numberText_eq_iff hy hz] at right
  rw [← numberText_eq_iff hx hz, left, right]

theorem beq_comm {x y : Float} (same : (x == y) = true) : (y == x) = true := by
  obtain ⟨hx, hy⟩ := isNaN_of_eq same
  rw [← numberText_eq_iff hx hy] at same
  rw [← numberText_eq_iff hy hx, same]

/-- Numbers and texts are the numbers that their texts read as. Null and the truth values have texts
that read as no number. -/
theorem reading_of_text {a : Value} {x : Float} (converts : a.toNumber = .ok x)
    (number : x.isNaN = false) :
    (∃ y, Decimal.ofText? a.text = some y ∧ (y == x) = true) ∨
      Decimal.ofText? a.text = none ∧ (a = .null ∨ ∃ b, a = .bool b) := by
  cases a with
  | null => exact .inr ⟨rfl, .inl rfl⟩
  | bool b => exact .inr ⟨by cases b <;> rfl, .inr ⟨b, rfl⟩⟩
  | number z =>
    cases converts
    exact .inl (numberText_reads_back number)
  | string s =>
    rw [toNumber] at converts
    cases read : Decimal.ofText? s with
    | none => simp [read] at converts
    | some z =>
      have same : z = x := by simpa [read] using converts
      have self := (numberText_eq_iff number number).mp rfl
      exact .inl ⟨z, read, same ▸ self⟩
  | list items => cases converts

/-- The text of a value determines the number it stands for. -/
theorem toNumber_eq_of_text_eq {a b : Value} {x y : Float} (ha : a.toNumber = .ok x)
    (hb : b.toNumber = .ok y) (hx : x.isNaN = false) (hy : y.isNaN = false)
    (same : a.text = b.text) : (x == y) = true := by
  obtain ⟨z, read, eq⟩ | ⟨unread, constant⟩ := reading_of_text ha hx
  · obtain ⟨w, read', eq'⟩ | ⟨unread, -⟩ := reading_of_text hb hy
    · rw [same, read'] at read
      cases read
      exact beq_trans (beq_comm eq) eq'
    · rw [same, unread] at read
      cases read
  · obtain ⟨w, read, -⟩ | ⟨-, constant'⟩ := reading_of_text hb hy
    · rw [same, read] at unread
      cases unread
    · have values : a = b := by
        obtain rfl | ⟨p, rfl⟩ := constant <;> obtain rfl | ⟨q, rfl⟩ := constant'
        · rfl
        · cases q <;> simp [text] at same
        · cases p <;> simp [text] at same
        · cases p <;> cases q <;> simp [text] at same ⊢
      rw [values, hb] at ha
      cases ha
      exact (numberText_eq_iff hx hx).mp rfl

/-- A value that is spelled as the number it stands for is written. -/
def Plain (a : Value) : Prop :=
  ∃ x, a.toNumber = .ok x ∧ x.isNaN = false ∧ a.text = numberText x

theorem plain_iff {a : Value} {x : Float} (converts : a.toNumber = .ok x)
    (number : x.isNaN = false) : a.Plain ↔ a.text = numberText x := by
  constructor
  · rintro ⟨y, also, -, text⟩
    rw [converts] at also
    cases also
    exact text
  · intro text
    exact ⟨x, converts, number, text⟩

end Value

/-- Exactly one of three. -/
def OneOf (p q r : Prop) : Prop :=
  (p ∨ q ∨ r) ∧ ¬(p ∧ q) ∧ ¬(p ∧ r) ∧ ¬(q ∧ r)

namespace Kinds

variable {β ε : Type}

section

variable (h : Header β) {a b : Value} {x y : Float} (ha : a.toNumber = .ok x)
  (hb : b.toNumber = .ok y) (hx : x.isNaN = false) (hy : y.isNaN = false)
include ha hb

/-- The four operators that read both values as numbers. -/
theorem comparison_ordered :
    comparison h "LT" a b = .ok (decide (x < y)) ∧ comparison h "LTE" a b = .ok (decide (x ≤ y)) ∧
      comparison h "GT" a b = .ok (decide (x > y)) ∧
      comparison h "GTE" a b = .ok (decide (x ≥ y)) := by
  have ordered (holds : Float → Float → Bool) :
      comparison.ordered a b holds = .ok (holds x y) := by
    rw [comparison.ordered, ha, hb]
    rfl
  exact ⟨ordered _, ordered _, ordered _, ordered _⟩

include hx

omit hb in
theorem comparison_equal (b : Value) :
    comparison h "EQ" a b = .ok (decide (a.text = b.text)) := by
  have numbers : ¬(a.isNaN = true ∧ b.isNaN = true) := by
    rintro ⟨nan, -⟩
    cases a with
    | number z =>
      cases ha
      rw [Value.isNaN, hx] at nan
      cases nan
    | null | bool | string | list => cases nan
  exact congrArg Except.ok (equalValues_eq_text numbers)

include hy

/-- Values that are equal stand for one number. -/
theorem comparison_equal_iff :
    comparison h "EQ" a b = .ok true ↔ (x == y) = true ∧ a.text = b.text := by
  rw [comparison_equal h ha hx b, Except.ok.injEq, decide_eq_true_iff]
  constructor
  · intro same
    exact ⟨Value.toNumber_eq_of_text_eq ha hb hx hy same, same⟩
  · rintro ⟨-, same⟩
    exact same

end

/-- Values that stand for numbers can be compared in all ways. They are equal if they stand for one
number and have one text. By size, one of them is the greater one or they stand for one number.
A value that is spelled as its number is written equals just the values of that number that are
spelled so too. Between values that are spelled so, equality is numeric: exactly one of less, equal
and greater holds, and they are equal if neither is the greater one. -/
theorem equality_is_numeric_between_plain_values (h : Header β) {a b : Value} {x y : Float}
    (ha : a.toNumber = .ok x) (hb : b.toNumber = .ok y) (hx : x.isNaN = false)
    (hy : y.isNaN = false) :
    let holds (op : String) : Prop := comparison h op a b = .ok true
    (∀ op ∈ ["EQ", "NEQ", "LT", "LTE", "GT", "GTE"], ∃ v, comparison h op a b = .ok v) ∧
    (holds "EQ" ↔ (x == y) = true ∧ a.text = b.text) ∧
    OneOf (holds "LT") ((x == y) = true) (holds "GT") ∧
    ((x == y) = true ↔ holds "LTE" ∧ holds "GTE") ∧
    (a.Plain → (holds "EQ" ↔ (x == y) = true ∧ b.Plain)) ∧
    (a.Plain → b.Plain →
      (holds "EQ" ↔ (x == y) = true) ∧ OneOf (holds "LT") (holds "EQ") (holds "GT") ∧
      (holds "EQ" ↔ holds "LTE" ∧ holds "GTE")) ∧
    ∀ (env : Environment β ε) (inputs : Inputs β) (op : String) (s t r : RunState)
      (w v u : World ε), h.fieldText "OP" = .ok op →
      env.run (inputs.required h "A") s w = (.result (.ok a), t, v) →
      env.run (inputs.required h "B") t v = (.result (.ok b), r, u) →
      env.run (comparisonBlock h inputs) s w =
        (.result ((comparison h op a b).map Value.bool), r, u) := by
  intro holds
  obtain ⟨lt, le, gt, ge⟩ := comparison_ordered h ha hb
  have equal : holds "EQ" ↔ (x == y) = true ∧ a.text = b.text :=
    comparison_equal_iff h ha hb hx hy
  obtain ⟨order, below, same, above, atMost, atLeast⟩ := exists_order hx hy
  have less : holds "LT" ↔ order = .lt := by
    rw [← below]
    simp [holds, lt]
  have greater : holds "GT" ↔ order = .gt := by
    rw [← above]
    simp [holds, gt]
  have both : holds "LTE" ∧ holds "GTE" ↔ order = .eq := by
    have split : x ≤ y ∧ x ≥ y ↔ order = .eq := by
      rw [atMost, atLeast]
      cases order <;> decide
    rw [← split]
    simp [holds, le, ge]
  have spelled : a.Plain → (holds "EQ" ↔ (x == y) = true ∧ b.Plain) := by
    rw [equal, Value.plain_iff ha hx, Value.plain_iff hb hy]
    intro plain
    refine and_congr_right fun eq => ?_
    rw [plain, (Value.numberText_eq_iff hx hy).mpr eq, eq_comm]
  have one : OneOf (order = .lt) (order = .eq) (order = .gt) := by
    unfold OneOf
    cases order <;> decide
  refine ⟨?_, equal, ?_, ?_, spelled, ?_, ?_⟩
  · intro op mem
    simp only [List.mem_cons, List.not_mem_nil, or_false] at mem
    obtain rfl | rfl | rfl | rfl | rfl | rfl := mem
    · exact ⟨_, rfl⟩
    · exact ⟨_, rfl⟩
    · exact ⟨_, lt⟩
    · exact ⟨_, le⟩
    · exact ⟨_, gt⟩
    · exact ⟨_, ge⟩
  · rwa [less, greater, same]
  · rw [both, same]
  · intro plain plain'
    have numeric : holds "EQ" ↔ order = .eq := by
      rw [spelled plain, same]
      exact and_iff_left plain'
    rw [numeric, less, greater, both, same]
    exact ⟨Iff.rfl, one, Iff.rfl⟩
  · intro env inputs op s t r w v u operator first second
    exact run_comparisonBlock operator first second

/-- A text and a number that are written alike. -/
theorem text_equals_its_number :
    let h : Header Stock := ⟨"logic_compare", none, .comparison, [], []⟩
    let a : Value := .string "-12.5"
    let b : Value := .number (-12.5)
    a.toNumber = .ok (-12.5) ∧ b.toNumber = .ok (-12.5) ∧ (-12.5 : Float).isNaN = false ∧
      a.Plain ∧ b.Plain ∧
      comparison h "EQ" a b = .ok true ∧ comparison h "LTE" a b = .ok true ∧
      comparison h "GTE" a b = .ok true := by
  intro h a b
  have ha : a.toNumber = .ok (-12.5) := rfl
  have hb : b.toNumber = .ok (-12.5) := rfl
  have number : (-12.5 : Float).isNaN = false := by decide +kernel
  have written : Value.numberText (-12.5) = "-12.5" := by decide +kernel
  have plain : a.Plain := ⟨_, ha, number, written.symm⟩
  have plain' : b.Plain := ⟨_, hb, number, rfl⟩
  have self : ((-12.5 : Float) == -12.5) = true := by decide +kernel
  obtain ⟨-, -, -, -, -, numeric, -⟩ :=
    equality_is_numeric_between_plain_values (ε := Unit) h ha hb number number
  obtain ⟨equal, -, both⟩ := numeric plain plain'
  have holds := equal.mpr self
  exact ⟨ha, hb, number, plain, plain', holds, both.mp holds⟩

/-- A text with another spelling, a truth value and null do not equal the numbers they stand for,
and are neither less nor greater. -/
theorem equal_numbers_not_equal :
    let h : Header Stock := ⟨"logic_compare", none, .comparison, [], []⟩
    ∀ p ∈ [(Value.string "1.0", (1.0 : Float)), (.bool true, 1.0), (.null, 0.0)],
      p.1.toNumber = .ok p.2 ∧ (Value.number p.2).toNumber = .ok p.2 ∧ p.2.isNaN = false ∧
      (p.2 == p.2) = true ∧
      comparison h "EQ" p.1 (.number p.2) = .ok false ∧
      comparison h "LT" p.1 (.number p.2) = .ok false ∧
      comparison h "GT" p.1 (.number p.2) = .ok false ∧
      comparison h "LTE" p.1 (.number p.2) = .ok true ∧
      comparison h "GTE" p.1 (.number p.2) = .ok true := by
  intro h
  simp only [List.forall_mem_cons]
  refine ⟨?_, ?_, ?_, by simp⟩
  · have unequal : equalValues (.string "1.0") (.number 1.0) = false := by decide +kernel
    exact ⟨rfl, rfl, rfl, rfl, congrArg Except.ok unequal, rfl, rfl, rfl, rfl⟩
  · have unequal : equalValues (.bool true) (.number 1.0) = false := by decide +kernel
    exact ⟨rfl, rfl, rfl, rfl, congrArg Except.ok unequal, rfl, rfl, rfl, rfl⟩
  · have unequal : equalValues .null (.number 0.0) = false := by decide +kernel
    exact ⟨rfl, rfl, rfl, rfl, congrArg Except.ok unequal, rfl, rfl, rfl, rfl⟩

end Kinds

end BlockScript
