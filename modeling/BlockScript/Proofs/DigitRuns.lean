import BlockScript.Decimal.Reading
/-!
Runs of digits: what they stand for, and where they end in a text.
-/

namespace BlockScript

namespace Decimal

theorem ofDigits_eq_ofDigitChars (ds : List Char) : ofDigits ds = Nat.ofDigitChars 10 ds 0 :=
  Nat.ofDigitChars_eq_foldl.symm

/-- A run of digits stands for less than the next power of ten. -/
theorem ofDigits_lt {ds : List Char} (digits : ∀ c ∈ ds, c.isDigit) :
    ofDigits ds < Nat.pow 10 ds.length := by
  have bounded (n : Nat) :
      ds.foldl (fun n c => 10 * n + digitValue c) n < (n + 1) * Nat.pow 10 ds.length := by
    induction ds generalizing n with
    | nil => simp
    | cons c ds ih =>
      have small : digitValue c < 10 := by
        have digit := Char.isDigit_iff_toNat.mp (digits c List.mem_cons_self)
        have nine : '9'.toNat = '0'.toNat + 9 := rfl
        unfold digitValue
        omega
      have rest := ih (fun d mem => digits d (List.mem_cons_of_mem c mem)) (10 * n + digitValue c)
      calc ds.foldl (fun n c => 10 * n + digitValue c) (10 * n + digitValue c)
          < (10 * n + digitValue c + 1) * Nat.pow 10 ds.length := rest
        _ ≤ (10 * (n + 1)) * Nat.pow 10 ds.length := Nat.mul_le_mul_right _ (by omega)
        _ = (n + 1) * Nat.pow 10 (ds.length + 1) := by
          rw [Nat.mul_comm 10, Nat.mul_assoc, Nat.mul_comm 10]
          rfl
  have start := bounded 0
  rw [Nat.zero_add, Nat.one_mul] at start
  exact start

/-- A run of digits ends where something else begins. -/
theorem span_digits {ds rest : List Char} (digits : ∀ c ∈ ds, c.isDigit)
    (stops : ∀ c ∈ rest.head?, c.isDigit = false) :
    (ds ++ rest).takeWhile Char.isDigit = ds ∧ (ds ++ rest).dropWhile Char.isDigit = rest := by
  rw [List.takeWhile_append_of_pos digits, List.dropWhile_append_of_pos digits]
  cases rest with
  | nil => exact ⟨List.append_nil ds, rfl⟩
  | cons c rest =>
    have other : ¬c.isDigit := by simp [stops c rfl]
    rw [List.takeWhile_cons_of_neg other, List.dropWhile_cons_of_neg other, List.append_nil]
    exact ⟨rfl, rfl⟩

end Decimal

theorem Text.isBlank_of_isDigit {c : Char} (digit : c.isDigit) : isBlank c = false := by
  have range : 48 ≤ c.toNat ∧ c.toNat ≤ 57 := Char.isDigit_iff_toNat.mp digit
  simp only [isBlank, Bool.or_eq_false_iff, Bool.and_eq_false_iff, decide_eq_false_iff_not,
    beq_eq_false_iff_ne]
  omega

end BlockScript
