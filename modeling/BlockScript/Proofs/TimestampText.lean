import BlockScript.Proofs.Calendar
import BlockScript.Proofs.DigitRuns
/-!
The text of a moment reads back as that moment.

Each part of the text is taken off its front by the reader for that part. What was read is always
well formed: a leap second is the last of its minute, since offsets are whole minutes.
-/

namespace BlockScript

namespace Time.Timestamp

section
variable {width n : Nat}

theorem isDigit_of_mem_padded {c : Char} (mem : c ∈ padded width n) : c.isDigit := by
  obtain zero | digit := List.mem_append.mp mem
  · rw [List.eq_of_mem_replicate zero]
    rfl
  · exact Nat.isDigit_of_mem_toDigits (by omega) (by omega) digit

theorem ofDigits_padded (width n : Nat) : Decimal.ofDigits (padded width n) = n := by
  rw [Decimal.ofDigits_eq_ofDigitChars, padded, Nat.ofDigitChars_append,
    Nat.ofDigitChars_replicate_zero, Nat.mul_zero, Nat.ofDigitChars_ten_toDigits]

theorem span_padded (width n : Nat) {c : Char} (other : c.isDigit = false) (rest : List Char) :
    (padded width n ++ c :: rest).takeWhile Char.isDigit = padded width n ∧
      (padded width n ++ c :: rest).dropWhile Char.isDigit = c :: rest := by
  refine Decimal.span_digits (fun d mem => isDigit_of_mem_padded mem) ?_
  rintro d ⟨⟩
  exact other

variable (wide : 0 < width) (fits : n < Nat.pow 10 width)
include wide fits

theorem length_padded : (padded width n).length = width := by
  have short : (Nat.toDigits 10 n).length ≤ width :=
    (Nat.length_toDigits_le_iff (by omega) wide).mpr fits
  simp only [padded, List.length_append, List.length_replicate]
  omega

theorem isEmpty_padded : (padded width n).isEmpty = false := by
  rw [List.isEmpty_eq_false_iff, ← List.length_pos_iff, length_padded wide fits]
  exact wide

theorem exists_padded_eq_cons : ∃ d ds, padded width n = d :: ds ∧ d.isDigit := by
  cases eq : padded width n with
  | nil =>
    have some_left := isEmpty_padded wide fits
    rw [eq] at some_left
    cases some_left
  | cons d ds => exact ⟨d, ds, rfl, isDigit_of_mem_padded (eq ▸ List.mem_cons_self)⟩

theorem dropBlanks_padded (rest : List Char) :
    (padded width n ++ rest).dropWhile Text.isBlank = padded width n ++ rest := by
  obtain ⟨d, ds, eq, digit⟩ := exists_padded_eq_cons wide fits
  rw [eq, List.cons_append, List.dropWhile_cons_of_neg (by simp [Text.isBlank_of_isDigit digit])]

theorem readNumber_padded (rest : List Char) :
    readNumber width (padded width n ++ rest) = some (n, rest) := by
  have length := length_padded wide fits
  have digits : (padded width n).takeWhile Char.isDigit = padded width n := by
    have all : (padded width n ++ []).takeWhile Char.isDigit = padded width n ++ [] :=
      List.takeWhile_append_of_pos fun c mem => isDigit_of_mem_padded mem
    simpa using all
  unfold readNumber
  simp only [dropBlanks_padded wide fits, List.take_left' length, digits,
    isEmpty_padded wide fits, ofDigits_padded, Bool.false_eq_true, if_false, List.drop_left]

omit wide fits in
theorem readYear_padded (fits : n < Nat.pow 10 4) (rest : List Char) :
    readYear (padded 4 n ++ rest) = some ((n : Int), rest) := by
  obtain ⟨d, ds, eq, digit⟩ := exists_padded_eq_cons (by decide) fits
  have number := readNumber_padded (by decide) fits rest
  unfold readYear
  rw [dropBlanks_padded (by decide) fits]
  split
  · next signed =>
    rw [eq] at signed
    cases signed
    cases digit
  · next signed =>
    rw [eq] at signed
    cases signed
    cases digit
  · rw [number]
    rfl

omit wide fits in
theorem readNumber_two (small : n < 100) (rest : List Char) :
    readNumber 2 (padded 2 n ++ rest) = some (n, rest) :=
  readNumber_padded (by decide) small rest

theorem readFraction_padded (short : width ≤ 9) {c : Char} (other : c.isDigit = false)
    (rest : List Char) :
    readFraction ('.' :: (padded width n ++ c :: rest)) =
      some (n * Nat.pow 10 (9 - width), c :: rest) := by
  have length := length_padded wide fits
  obtain ⟨digits, left⟩ := span_padded width n other rest
  have nine : (padded width n).take 9 = padded width n := List.take_of_length_le (by omega)
  simp only [readFraction, digits, left, nine, isEmpty_padded wide fits, ofDigits_padded,
    length, Bool.false_eq_true, if_false]

end

theorem readYear_signed {n : Nat} {c : Char} (other : c.isDigit = false) (rest : List Char)
    (sign : Int → Int) :
    readYear.signed (padded 4 n ++ c :: rest) sign = some (sign n, c :: rest) := by
  obtain ⟨digits, left⟩ := span_padded 4 n other rest
  have filled : (padded 4 n).isEmpty = false := by simp [padded, Nat.toDigits_ne_nil]
  simp only [readYear.signed, digits, left, filled, ofDigits_padded, Bool.false_eq_true, if_false]

/-- A year is read as it is written, signed or not. -/
theorem readYear_yearChars (year : Int) {c : Char} (other : c.isDigit = false)
    (rest : List Char) : readYear (yearChars year ++ c :: rest) = some (year, c :: rest) := by
  unfold yearChars
  split
  · next plain =>
    have small : year.toNat < Nat.pow 10 4 := by
      change _ < 10000
      omega
    rw [readYear_padded small, Int.toNat_of_nonneg plain.1]
  · have dark : Text.isBlank '-' = false ∧ Text.isBlank '+' = false := by decide
    split
    · rw [List.cons_append, readYear, List.dropWhile_cons_of_neg (by simp [dark])]
      refine (readYear_signed other rest _).trans ?_
      congr
      omega
    · rw [List.cons_append, readYear, List.dropWhile_cons_of_neg (by simp [dark])]
      refine (readYear_signed other rest _).trans ?_
      congr
      omega

theorem readMark_cons {mark : Char} (dark : Text.isBlank mark = false) (rest : List Char) :
    readMark mark (mark :: rest) = some rest := by
  simp [readMark, List.dropWhile_cons_of_neg, dark]

/-- The shortest exact fraction is exact. -/
theorem readFraction_fractionChars {nanos : Nat} (fits : nanos < 1000000000) {c : Char}
    (after : c.isDigit = false ∧ c ≠ '.') (rest : List Char) :
    readFraction (fractionChars nanos ++ c :: rest) = some (nanos, c :: rest) := by
  obtain ⟨other, pointless⟩ := after
  unfold fractionChars
  split
  · next none_left =>
    subst none_left
    unfold readFraction
    split
    · next point =>
      cases point
      exact absurd rfl pointless
    · rfl
  · split
    · rw [List.cons_append, readFraction_padded (by decide) (by change _ < 1000; omega) (by decide)
        other]
      have exact : nanos / 1000000 * Nat.pow 10 6 = nanos := by
        change nanos / 1000000 * 1000000 = nanos
        omega
      rw [exact]
    · split
      · rw [List.cons_append, readFraction_padded (by decide) (by change _ < 1000000; omega)
          (by decide) other]
        have exact : nanos / 1000 * Nat.pow 10 3 = nanos := by
          change nanos / 1000 * 1000 = nanos
          omega
        rw [exact]
      · rw [List.cons_append, readFraction_padded (by decide) fits (by decide) other]
        exact congrArg (fun n => some (n, c :: rest)) (Nat.mul_one nanos)

/-- A moment has less than a billion nanoseconds, unless it lies in a leap second, which is the
last of a minute. -/
def WellFormed (t : Timestamp) : Prop :=
  t.nanos < 1000000000 ∨ t.nanos < 2000000000 ∧ t.seconds % 60 = 59

/-- The years that are written with four digits and no sign. -/
def FourDigitYear (t : Timestamp) : Prop :=
  0 ≤ t.date.year ∧ t.date.year ≤ 9999

theorem FourDigitYear.isValid {t : Timestamp} (h : t.FourDigitYear) : t.date.isValid = true := by
  obtain ⟨first, last⟩ := h
  exact Date.isValid_ofDays (Int.le_trans (by decide) first) (Int.le_trans last (by decide))

theorem readSeparator_cons (rest : List Char) : readSeparator ('T' :: rest) = some rest := rfl

theorem bind_of_eq_some {α β : Type} {o : Option α} {a : α} {f : α → Option β} (h : o = some a) :
    (o >>= f) = f a := by
  rw [h]
  rfl

/-- A date and time of day that exist are read as they are written. -/
theorem ofChars?_written {year : Int} {month day hour minute second nanos : Nat}
    (valid : Date.isValid ⟨year, month, day⟩ = true)
    (hour_lt : hour < 24) (minute_lt : minute < 60) (second_le : second ≤ 60)
    (nanos_lt : nanos < 1000000000) {t : Timestamp}
    (seconds_eq : t.seconds = Date.toDays ⟨year, month, day⟩ * 86400 +
      (hour * 3600 + minute * 60 : Nat) + (if second = 60 then 59 else second : Nat))
    (nanos_eq : t.nanos = if second = 60 then nanos + 1000000000 else nanos)
    (valid' : t.date.isValid = true) :
    ofChars? (yearChars year ++ '-' :: padded 2 month ++ '-' :: padded 2 day ++
      'T' :: padded 2 hour ++ ':' :: padded 2 minute ++ ':' :: padded 2 second ++
      fractionChars nanos ++ ['Z']) = some t := by
  have month_lt : month < 100 := by
    simp only [Date.isValid, Bool.and_eq_true, decide_eq_true_eq] at valid
    omega
  have day_lt : day < 100 := by
    have length := Date.daysInMonth_le year month
    simp only [Date.isValid, Bool.and_eq_true, decide_eq_true_eq] at valid
    omega
  have hyphen : Text.isBlank '-' = false := by decide
  have colon : Text.isBlank ':' = false := by decide
  have zulu : 'Z'.isDigit = false ∧ 'Z' ≠ '.' := by decide
  have offset : readOffset (['Z'].dropWhile Text.isBlank) = some (0, []) := by decide
  have moment : (⟨Date.toDays ⟨year, month, day⟩ * 86400 + (hour * 3600 + minute * 60 : Nat) - 0 +
      (if second = 60 then 59 else second : Nat),
      if second = 60 then nanos + 1000000000 else nanos⟩ : Timestamp) = t := by
    rw [Int.sub_zero, ← seconds_eq, ← nanos_eq]
  simp only [List.append_assoc, List.cons_append]
  refine (bind_of_eq_some (readYear_yearChars year (by decide) _)).trans ?_
  refine (bind_of_eq_some (readMark_cons hyphen _)).trans ?_
  refine (bind_of_eq_some (readNumber_two month_lt _)).trans ?_
  refine (bind_of_eq_some (readMark_cons hyphen _)).trans ?_
  refine (bind_of_eq_some (readNumber_two day_lt _)).trans ?_
  refine (bind_of_eq_some (readSeparator_cons _)).trans ?_
  refine (bind_of_eq_some (readNumber_two (by omega) _)).trans ?_
  refine (bind_of_eq_some (readMark_cons colon _)).trans ?_
  refine (bind_of_eq_some (readNumber_two (by omega) _)).trans ?_
  refine (bind_of_eq_some (readMark_cons colon _)).trans ?_
  refine (bind_of_eq_some (readNumber_two (by omega) _)).trans ?_
  refine (bind_of_eq_some (readFraction_fractionChars nanos_lt zulu _)).trans ?_
  refine (bind_of_eq_some offset).trans ?_
  simp only [moment, valid, valid', hour_lt, minute_lt, second_le]
  rfl

/-- The text of a moment on a day that exists reads back as that moment. -/
theorem ofText?_text {t : Timestamp} (wf : t.WellFormed)
    (valid : t.date.isValid = true) : ofText? t.text = some t := by
  have days : Date.toDays ⟨t.date.year, t.date.month, t.date.day⟩ = t.seconds / 86400 :=
    Date.toDays_ofDays _
  unfold ofText? text
  rw [String.toList_ofList]
  obtain ⟨second, clock⟩ : ∃ n, n = (t.seconds % 86400).toNat := ⟨_, rfl⟩
  rw [← clock]
  have clock' : (second : Int) = t.seconds % 86400 := by omega
  apply ofChars?_written
  · exact valid
  · omega
  · omega
  · split <;> omega
  · omega
  · rw [days]
    obtain plain | ⟨leap, late⟩ := wf
    · have common : ¬ 1000000000 ≤ t.nanos := by omega
      simp only [common, if_false]
      split <;> omega
    · split <;> split <;> omega
  · obtain plain | ⟨leap, late⟩ := wf
    · have common : ¬ 1000000000 ≤ t.nanos := by omega
      simp only [common, if_false]
      split <;> omega
    · split <;> split <;> omega
  · exact valid

theorem readFraction_lt {cs rest : List Char} {nanos : Nat}
    (read : readFraction cs = some (nanos, rest)) : nanos < 1000000000 := by
  unfold readFraction at read
  split at read
  · next after =>
    simp only at read
    split at read
    · cases read
    · cases read
      have digits : ∀ c ∈ (after.takeWhile Char.isDigit).take 9, c.isDigit := by
        intro c mem
        have all := List.all_eq_true.mp (List.all_takeWhile (p := Char.isDigit) (l := after))
        exact all c (List.mem_of_mem_take mem)
      have few : ((after.takeWhile Char.isDigit).take 9).length ≤ 9 := by
        rw [List.length_take]
        exact Nat.min_le_left _ _
      generalize (after.takeWhile Char.isDigit).take 9 = nine at digits few ⊢
      calc Decimal.ofDigits nine * Nat.pow 10 (9 - nine.length)
          < Nat.pow 10 nine.length * Nat.pow 10 (9 - nine.length) :=
            Nat.mul_lt_mul_of_pos_right (Decimal.ofDigits_lt digits) (Nat.pow_pos (by decide))
        _ = Nat.pow 10 (nine.length + (9 - nine.length)) := (Nat.pow_add 10 _ _).symm
        _ = 1000000000 := by rw [Nat.add_sub_cancel' few]
  · cases read
    decide

/-- Offsets are whole minutes. -/
theorem readOffset_minutes {cs rest : List Char} {offset : Int}
    (read : readOffset cs = some (offset, rest)) : offset % 60 = 0 := by
  have numeric {cs rest : List Char} {sign : Int → Int} {offset : Int}
      (whole : ∀ n : Int, n % 60 = 0 → sign n % 60 = 0)
      (read : readOffset.numeric cs sign = some (offset, rest)) : offset % 60 = 0 := by
    unfold readOffset.numeric at read
    split at read
    · split at read
      · obtain ⟨⟨minutes, after⟩, -, eq⟩ := Option.map_eq_some_iff.mp read
        cases eq
        apply whole
        omega
      · cases read
    · cases read
  unfold readOffset at read
  split at read
  · cases read
    rfl
  · cases read
    rfl
  · split at read
    · cases read
      rfl
    · split at read
      · exact numeric (fun n whole => by omega) read
      · split at read
        · exact numeric (fun n whole => by omega) read
        · cases read
  · cases read

/-- What is read is well formed. -/
theorem wellFormed_of_ofText? {s : String} {t : Timestamp} (read : ofText? s = some t) :
    t.WellFormed := by
  obtain ⟨⟨year, _⟩, -, read⟩ := Option.bind_eq_some_iff.mp read
  obtain ⟨_, -, read⟩ := Option.bind_eq_some_iff.mp read
  obtain ⟨⟨month, _⟩, -, read⟩ := Option.bind_eq_some_iff.mp read
  obtain ⟨_, -, read⟩ := Option.bind_eq_some_iff.mp read
  obtain ⟨⟨day, _⟩, -, read⟩ := Option.bind_eq_some_iff.mp read
  obtain ⟨_, -, read⟩ := Option.bind_eq_some_iff.mp read
  obtain ⟨⟨hour, _⟩, -, read⟩ := Option.bind_eq_some_iff.mp read
  obtain ⟨_, -, read⟩ := Option.bind_eq_some_iff.mp read
  obtain ⟨⟨minute, _⟩, -, read⟩ := Option.bind_eq_some_iff.mp read
  obtain ⟨_, -, read⟩ := Option.bind_eq_some_iff.mp read
  obtain ⟨⟨second, _⟩, -, read⟩ := Option.bind_eq_some_iff.mp read
  obtain ⟨⟨nanos, _⟩, fraction, read⟩ := Option.bind_eq_some_iff.mp read
  obtain ⟨⟨offset, _⟩, minutes, read⟩ := Option.bind_eq_some_iff.mp read
  have small := readFraction_lt fraction
  have whole := readOffset_minutes minutes
  simp only [Option.ite_none_right_eq_some, Bool.and_eq_true, decide_eq_true_eq,
    Option.some.injEq] at read
  obtain ⟨-, -, rfl⟩ := read
  by_cases leap : second = 60
  · refine .inr ⟨?_, ?_⟩
    · simp only [leap, if_true]
      omega
    · simp only [leap, if_true]
      omega
  · refine .inl ?_
    simp only [leap, if_false]
    exact small

end Time.Timestamp

end BlockScript
