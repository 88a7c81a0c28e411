import BlockScript.Proofs.DigitRuns
import BlockScript.Proofs.TextGrammar
/-!
The reader of JSON texts accepts the grammar.

The grammar allows a number to end anywhere, and the reader takes it as far as it goes. The two
agree on syntax trees, in which a number is last or followed by a comma or a closing bracket. So a
text writes at most one syntax tree, and that is the one read from it.
-/

namespace BlockScript.Json

namespace Digits

variable {ds : List Char} (h : Digits ds)
include h

theorem isEmpty : ds.isEmpty = false :=
  List.isEmpty_eq_false_iff.mpr h.nonempty

theorem exists_cons : ∃ d more, ds = d :: more ∧ d.isDigit := by
  obtain ⟨d, more, rfl⟩ := List.exists_cons_of_ne_nil h.nonempty
  exact ⟨d, more, rfl, h.digits d List.mem_cons_self⟩

theorem splitSign (rest : List Char) : Decimal.splitSign (ds ++ rest) = (false, ds ++ rest) := by
  obtain ⟨d, more, rfl, digit⟩ := h.exists_cons
  rw [List.cons_append]
  unfold Decimal.splitSign
  split
  · next eq =>
    cases eq
    cases digit
  · next eq =>
    cases eq
    cases digit
  · rfl

end Digits

section
variable {c e : Char} {rest : List Char}

theorem scanString_char (quote : c ≠ '"') (backslash : c ≠ '\\') (printable : 0x20 ≤ c.toNat) :
    scanString (c :: rest) = (scanString rest).map fun (t, r) => (.char c :: t, r) := by
  have plain : ¬(c = '\\' ∨ c.toNat < 0x20) := not_or.mpr ⟨backslash, Nat.not_lt.mpr printable⟩
  rw [scanString.eq_def]
  split
  · next eq => cases eq
  · next eq =>
    cases eq
    exact absurd rfl quote
  · next eq =>
    cases eq
    exact absurd rfl backslash
  · next eq =>
    cases eq
    exact absurd rfl backslash
  · next eq =>
    cases eq
    exact if_neg plain

theorem scanString_escape (known : escaped? e = some c) :
    scanString ('\\' :: e :: rest) = (scanString rest).map fun (t, r) => (.char c :: t, r) := by
  rw [scanString.eq_def]
  split
  · next eq => cases eq
  · next eq => cases eq
  · next eq =>
    cases eq
    cases known
  · next eq =>
    cases eq
    simp only [known]
  · next unescaped eq =>
    cases eq
    exact absurd rfl (unescaped e rest rfl)

end

theorem scanString_of_spelled {t : StringToken} {cs : List Char} (h : t.Spelled cs)
    (rest : List Char) : scanString (cs ++ '"' :: rest) = some (t, rest) := by
  induction h with
  | nil => rfl
  | char quote backslash printable _ ih =>
    rw [List.cons_append, scanString_char quote backslash printable, ih]
    rfl
  | escape known _ ih =>
    rw [List.cons_append, List.cons_append, scanString_escape known, ih]
    rfl
  | unit digits _ ih =>
    simp only [List.cons_append, scanString, digits, ih, Option.map_some]

/-- A text that a number cannot go on with. -/
def Stops (cs : List Char) : Prop :=
  ∀ c ∈ cs.head?, c.isDigit = false ∧ c ≠ '.' ∧ c ≠ 'e' ∧ c ≠ 'E'

namespace NumberToken

theorem scanFraction_of_spelled {fraction : Option (List Char)} {point rest : List Char}
    (h : FractionSpelled fraction point) (stops : ∀ c ∈ rest.head?, c.isDigit = false ∧ c ≠ '.') :
    scanFraction (point ++ rest) = some (fraction, rest) := by
  cases h with
  | none =>
    rw [List.nil_append]
    unfold scanFraction
    split
    · next eq => exact absurd rfl (stops '.' rfl).2
    · rfl
  | point digits =>
    obtain ⟨taken, left⟩ := Decimal.span_digits digits.digits fun c mem => (stops c mem).1
    simp only [List.cons_append, scanFraction, taken, left, digits.isEmpty, Bool.false_eq_true,
      if_false]

theorem scanExponent_of_spelled {exponent : Option Int} {mark rest : List Char}
    (h : ExponentSpelled exponent mark) (stops : Stops rest) :
    scanExponent (mark ++ rest) = some (exponent, rest) := by
  have span {ds : List Char} (digits : Digits ds) :=
    Decimal.span_digits digits.digits fun c mem => (stops c mem).1
  cases h with
  | none =>
    cases rest with
    | nil => rfl
    | cons c rest =>
      obtain ⟨-, -, small, large⟩ := stops c rfl
      simp [scanExponent, small, large]
  | unsigned mark digits =>
    obtain ⟨taken, left⟩ := span digits
    simp [scanExponent, mark, digits.splitSign, taken, left, digits.nonempty]
  | plus mark digits =>
    obtain ⟨taken, left⟩ := span digits
    simp [scanExponent, mark, Decimal.splitSign, taken, left, digits.nonempty]
  | minus mark digits =>
    obtain ⟨taken, left⟩ := span digits
    simp [scanExponent, mark, Decimal.splitSign, taken, left, digits.nonempty]

/-- What starts with a point or an exponent mark does not start with a digit, nor does what is
after a number. -/
theorem ExponentSpelled.stops {exponent : Option Int} {mark rest : List Char}
    (h : ExponentSpelled exponent mark) (stops : Stops rest) :
    ∀ c ∈ (mark ++ rest).head?, c.isDigit = false ∧ c ≠ '.' := by
  cases h with
  | none => exact fun c mem => ⟨(stops c mem).1, (stops c mem).2.1⟩
  | unsigned mark | plus mark | minus mark =>
    rintro c ⟨⟩
    obtain rfl | rfl := mark <;> decide

theorem FractionSpelled.stops {fraction : Option (List Char)} {point rest : List Char}
    (h : FractionSpelled fraction point) (stops : ∀ c ∈ rest.head?, c.isDigit = false) :
    ∀ c ∈ (point ++ rest).head?, c.isDigit = false := by
  cases h with
  | none => exact stops
  | point =>
    rintro c ⟨⟩
    rfl

/-- A number starts with a minus sign or a digit. -/
theorem Spelled.exists_cons {n : NumberToken} {cs : List Char} (h : n.Spelled cs) :
    ∃ c more, cs = c :: more ∧ (c = '-' ∨ c.isDigit) := by
  obtain ⟨whole, -, -, -⟩ := h
  obtain ⟨d, more, eq, digit⟩ := whole.exists_cons
  cases n.negative with
  | true => exact ⟨'-', _, rfl, .inl rfl⟩
  | false =>
    rw [eq]
    exact ⟨d, _, rfl, .inr digit⟩

theorem scanNumber_of_spelled {n : NumberToken} {cs rest : List Char} (h : n.Spelled cs)
    (stops : Stops rest) : scanNumber (cs ++ rest) = some (n, rest) := by
  obtain ⟨negative, whole, fraction, exponent⟩ := n
  obtain @⟨point, mark, digits, leading, fractional, exponential⟩ := h
  dsimp only at digits leading fractional exponential
  have pointStops := exponential.stops stops
  have read := scanFraction_of_spelled fractional pointStops
  obtain ⟨taken, left⟩ := Decimal.span_digits digits.digits
    (fractional.stops fun c mem => (pointStops c mem).1)
  have rest_read := scanExponent_of_spelled exponential stops
  cases negative with
  | true =>
    have valid : ¬(whole.isEmpty ∨ whole.head? = some '0' ∧ 1 < whole.length) := by
      rintro (empty | ⟨zero, long⟩)
      · exact digits.nonempty (List.isEmpty_iff.mp empty)
      · exact absurd (leading zero) (Nat.ne_of_gt long)
    simp only [scanNumber, if_true, List.cons_append, List.nil_append, List.append_assoc, taken,
      left, valid, if_false, read, rest_read]
  | false =>
    obtain ⟨d, more, rfl, digit⟩ := digits.exists_cons
    have other : d ≠ '-' := by
      rintro rfl
      cases digit
    rw [List.cons_append] at taken left
    simpa [scanNumber, other, taken, left, read, rest_read] using leading

end NumberToken

namespace Token

/-- The tokens that can follow a number. -/
def endsNumber : Token → Bool
  | .comma | .closeArray | .closeObject => true
  | _ => false

theorem Spelled.stops {t : Token} {cs : List Char} (h : t.Spelled cs) (ends : t.endsNumber)
    (rest : List Char) : Stops (cs ++ rest) := by
  cases h with
  | comma | closeArray | closeObject =>
    rintro c ⟨⟩
    decide
  | _ => cases ends

/-- No token starts with a blank. -/
theorem Spelled.exists_cons {t : Token} {cs : List Char} (h : t.Spelled cs) :
    ∃ c more, cs = c :: more ∧ isSpace c = .false := by
  cases h with
  | number spelled =>
    obtain ⟨c, more, rfl, start⟩ := spelled.exists_cons
    refine ⟨c, more, rfl, ?_⟩
    obtain rfl | digit := start
    · rfl
    · simp only [isSpace, Bool.or_eq_false_iff, beq_eq_false_iff_ne]
      refine ⟨⟨⟨?_, ?_⟩, ?_⟩, ?_⟩
      all_goals
        rintro rfl
        cases digit
  | _ => exact ⟨_, _, rfl, rfl⟩

theorem scanToken_number {c : Char} {cs : List Char} (start : c = '-' ∨ c.isDigit) :
    scanToken (c :: cs) = (scanNumber (c :: cs)).map fun (t, r) => (.number t, r) := by
  unfold scanToken
  split
  case h_1 eq => cases eq
  case h_12 => rfl
  all_goals
    next eq =>
      cases eq
      exact absurd start (by decide)

theorem scanToken_of_spelled {t : Token} {cs rest : List Char} (h : t.Spelled cs)
    (stops : ∀ n, t = .number n → Stops rest) : scanToken (cs ++ rest) = some (t, rest) := by
  cases h with
  | number spelled =>
    have read := NumberToken.scanNumber_of_spelled spelled (stops _ rfl)
    obtain ⟨c, more, rfl, start⟩ := spelled.exists_cons
    rw [List.cons_append] at read ⊢
    rw [scanToken_number start, read]
    rfl
  | string spelled =>
    have read := scanString_of_spelled spelled rest
    simp [scanToken, read]
  | _ => rfl

end Token

/-- Every number is last or followed by a token that ends it. -/
def Separated : List Token → Prop
  | [] => True
  | t :: ts => (∀ n, t = .number n → ∀ u ∈ ts.head?, u.endsNumber) ∧ Separated ts

theorem Lexes.stops {cs : List Char} {ts : List Token} (h : Lexes cs ts)
    (ends : ∀ t ∈ ts.head?, t.endsNumber) : Stops cs := by
  cases h with
  | nil => nofun
  | blank space =>
    rintro c ⟨⟩
    simp only [isSpace, Bool.or_eq_true, beq_iff_eq] at space
    obtain ((rfl | rfl) | rfl) | rfl := space
    all_goals decide
  | token first => exact first.stops (ends _ rfl) _

theorem scan_of_lexes {cs : List Char} {ts : List Token} (h : Lexes cs ts) (apart : Separated ts)
    {fuel : Nat} (enough : cs.length ≤ fuel) : scan fuel cs = some ts := by
  induction h generalizing fuel with
  | nil => simp only [scan]
  | @blank c cs ts space _ ih =>
    obtain ⟨fuel, rfl⟩ := Nat.exists_eq_succ_of_ne_zero (Nat.ne_zero_of_lt enough)
    rw [scan, if_pos space]
    exact ih apart (Nat.le_of_succ_le_succ enough)
  | @token t ts spelled cs first rest ih =>
    have read : scanToken (spelled ++ cs) = some (t, cs) :=
      Token.scanToken_of_spelled first fun n number => rest.stops (apart.1 n number)
    obtain ⟨c, more, rfl, dark⟩ := first.exists_cons
    rw [List.cons_append] at read enough ⊢
    obtain ⟨fuel, rfl⟩ := Nat.exists_eq_succ_of_ne_zero (Nat.ne_zero_of_lt enough)
    have left : cs.length ≤ fuel := by
      rw [List.length_cons, List.length_append] at enough
      omega
    simp only [scan, dark, read, ih apart.2 left, Bool.false_eq_true, if_false, Option.map_some]

namespace Syntax

mutual

theorem separated_tokens {rest : List Token} (apart : Separated rest)
    (ends : ∀ t ∈ rest.head?, t.endsNumber) : (s : Syntax) → Separated (s.tokens ++ rest)
  | .null | .bool _ | .string _ => ⟨nofun, apart⟩
  | .number _ => ⟨fun _ _ => ends, apart⟩
  | .array items => by
    rw [tokens, List.cons_append, List.append_assoc]
    exact ⟨nofun, separated_items ⟨nofun, apart⟩ items⟩
  | .object members => by
    rw [tokens, List.cons_append, List.append_assoc]
    exact ⟨nofun, separated_members ⟨nofun, apart⟩ members⟩

theorem separated_items {rest : List Token} (apart : Separated (.closeArray :: rest)) :
    (items : List Syntax) → Separated (tokens.tokensItems items ++ .closeArray :: rest)
  | [] => apart
  | [s] => separated_tokens apart (by rintro t ⟨⟩; rfl) s
  | s :: t :: items => by
    have later : Separated (.comma :: (tokens.tokensItems (t :: items) ++ .closeArray :: rest)) :=
      ⟨nofun, separated_items apart (t :: items)⟩
    rw [tokensItems_cons s (List.cons_ne_nil t items), List.append_assoc]
    exact separated_tokens later (by rintro t ⟨⟩; rfl) s

theorem separated_members {rest : List Token} (apart : Separated (.closeObject :: rest)) :
    (members : List (StringToken × Syntax)) →
      Separated (tokens.tokensMembers members ++ .closeObject :: rest)
  | [] => apart
  | [(name, s)] => ⟨nofun, nofun, separated_tokens apart (by rintro t ⟨⟩; rfl) s⟩
  | (name, s) :: m :: members => by
    have later :
        Separated (.comma :: (tokens.tokensMembers (m :: members) ++ .closeObject :: rest)) :=
      ⟨nofun, separated_members apart (m :: members)⟩
    rw [tokensMembers_cons name s (List.cons_ne_nil m members), List.cons_append, List.cons_append,
      List.append_assoc]
    exact ⟨nofun, nofun, separated_tokens later (by rintro t ⟨⟩; rfl) s⟩

end

theorem exists_tokens_eq_cons (s : Syntax) : ∃ t ts, s.tokens = t :: ts ∧ t ≠ .closeArray := by
  cases s with
  | _ => exact ⟨_, _, rfl, nofun⟩

theorem exists_tokensItems_eq_cons {items : List Syntax} (filled : items ≠ []) :
    ∃ t ts, tokens.tokensItems items = t :: ts ∧ t ≠ .closeArray := by
  obtain ⟨s, items, rfl⟩ := List.exists_cons_of_ne_nil filled
  obtain ⟨t, ts, eq, other⟩ := s.exists_tokens_eq_cons
  cases items with
  | nil => exact ⟨t, ts, eq, other⟩
  | cons u items =>
    rw [tokensItems_cons s (List.cons_ne_nil u items), eq]
    exact ⟨t, _, rfl, other⟩

theorem value_openArray {fuel : Nat} {items : List Syntax} (filled : items ≠ [])
    (rest : List Token) :
    value (fuel + 1) (.openArray :: (tokens.tokensItems items ++ rest)) =
      (Syntax.items fuel (tokens.tokensItems items ++ rest)).map fun (vs, r) => (.array vs, r) := by
  obtain ⟨t, ts, eq, other⟩ := exists_tokensItems_eq_cons filled
  rw [eq, List.cons_append, value]
  rintro more ⟨⟩
  exact other rfl

theorem value_openObject {fuel : Nat} {members : List (StringToken × Syntax)}
    (filled : members ≠ []) (rest : List Token) :
    value (fuel + 1) (.openObject :: (tokens.tokensMembers members ++ rest)) =
      (Syntax.members fuel (tokens.tokensMembers members ++ rest)).map
        fun (ms, r) => (.object ms, r) := by
  obtain ⟨⟨name, s⟩, members, rfl⟩ := List.exists_cons_of_ne_nil filled
  cases members <;> rfl

mutual

/-- Reading a value takes its tokens, given twice as much fuel less one. -/
theorem value_tokens (rest : List Token) : (s : Syntax) → (fuel : Nat) →
    2 * s.tokens.length ≤ fuel + 1 → value fuel (s.tokens ++ rest) = some (s, rest)
  | s, 0, enough => by
    obtain ⟨t, ts, eq, -⟩ := s.exists_tokens_eq_cons
    rw [eq, List.length_cons] at enough
    omega
  | .null, _ + 1, _ | .bool _, _ + 1, _ | .number _, _ + 1, _ | .string _, _ + 1, _ => rfl
  | .array [], _ + 1, _ | .object [], _ + 1, _ => rfl
  | .array (s :: items), fuel + 1, enough => by
    simp only [tokens, List.length_cons, List.length_append, List.length_nil] at enough
    have read := items_tokens rest s items fuel (by omega)
    rw [tokens, List.cons_append, List.append_assoc, value_openArray (List.cons_ne_nil s items)]
    exact congrArg (Option.map _) read
  | .object ((name, s) :: members), fuel + 1, enough => by
    simp only [tokens, List.length_cons, List.length_append, List.length_nil] at enough
    have read := members_tokens rest name s members fuel (by omega)
    rw [tokens, List.cons_append, List.append_assoc,
      value_openObject (List.cons_ne_nil (name, s) members)]
    exact congrArg (Option.map _) read

/-- Reading items takes their tokens and the end of the array, given twice as much fuel. -/
theorem items_tokens (rest : List Token) (s : Syntax) : (items : List Syntax) → (fuel : Nat) →
    2 * (tokens.tokensItems (s :: items)).length ≤ fuel →
      Syntax.items fuel (tokens.tokensItems (s :: items) ++ .closeArray :: rest) =
        some (s :: items, rest)
  | items, 0, enough => by
    obtain ⟨t, ts, eq, -⟩ := exists_tokensItems_eq_cons (List.cons_ne_nil s items)
    rw [eq, List.length_cons] at enough
    omega
  | [], fuel + 1, enough => by
    have first := value_tokens (.closeArray :: rest) s fuel enough
    simp only [tokens.tokensItems, Syntax.items, first]
  | t :: items, fuel + 1, enough => by
    simp only [tokens.tokensItems, List.length_append, List.length_cons] at enough
    have first := value_tokens
      (.comma :: (tokens.tokensItems (t :: items) ++ .closeArray :: rest)) s fuel (by omega)
    have more := items_tokens rest t items fuel (by omega)
    rw [tokensItems_cons s (List.cons_ne_nil t items), List.append_assoc, List.cons_append]
    simp only [Syntax.items, first, more, Option.map_some]

/-- Reading members takes their tokens and the end of the object, given twice as much fuel. -/
theorem members_tokens (rest : List Token) (name : StringToken) (s : Syntax) :
    (members : List (StringToken × Syntax)) → (fuel : Nat) →
    2 * (tokens.tokensMembers ((name, s) :: members)).length ≤ fuel →
      Syntax.members fuel (tokens.tokensMembers ((name, s) :: members) ++ .closeObject :: rest) =
        some ((name, s) :: members, rest)
  | members, 0, enough => by
    cases members <;> simp [tokens.tokensMembers] at enough
  | [], fuel + 1, enough => by
    simp only [tokens.tokensMembers, List.length_cons] at enough
    have first := value_tokens (.closeObject :: rest) s fuel (by omega)
    simp only [tokens.tokensMembers, List.cons_append, Syntax.members, first]
  | (other, t) :: members, fuel + 1, enough => by
    simp only [tokens.tokensMembers, List.length_append, List.length_cons] at enough
    have first := value_tokens
      (.comma :: (tokens.tokensMembers ((other, t) :: members) ++ .closeObject :: rest)) s fuel
      (by omega)
    have more := members_tokens rest other t members fuel (by omega)
    rw [tokensMembers_cons name s (List.cons_ne_nil (other, t) members)]
    simp only [List.cons_append, List.append_assoc, Syntax.members, first, more, Option.map_some]

end

theorem ofTokens?_tokens (s : Syntax) : ofTokens? s.tokens = some s := by
  have read := s.value_tokens [] (2 * s.tokens.length + 1) (by omega)
  rw [List.append_nil] at read
  rw [ofTokens?, read]

/-- A syntax tree is read from the texts that write it, and from no others. -/
theorem ofText?_eq_some_iff {text : String} {s : Syntax} :
    ofText? text = some s ↔ Written text.toList s := by
  refine ⟨written_of_ofText?, ?_⟩
  intro written
  have nothing : Separated [] := trivial
  have apart := separated_tokens nothing nofun s
  rw [List.append_nil] at apart
  rw [ofText?, tokens?, scan_of_lexes written apart (Nat.le_refl _), Option.bind_some,
    ofTokens?_tokens]

end Syntax

end BlockScript.Json
