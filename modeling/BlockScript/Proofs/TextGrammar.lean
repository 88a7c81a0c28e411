import BlockScript.Json.Syntax
/-!
The grammar of JSON texts: how tokens are spelled, and which tokens make up a syntax tree.

The grammar does not say where a token ends, since two tokens that could run together never follow
each other in a tree. What is read from a text is written there.
-/

namespace BlockScript.Json

/-- The ways to write a string between its quotes. -/
inductive StringToken.Spelled : StringToken → List Char → Prop
  | nil : Spelled [] []
  | char {c : Char} {t : StringToken} {cs : List Char} (quote : c ≠ '"') (backslash : c ≠ '\\')
      (printable : 0x20 ≤ c.toNat) (rest : Spelled t cs) : Spelled (.char c :: t) (c :: cs)
  | escape {e c : Char} {t : StringToken} {cs : List Char} (known : escaped? e = some c)
      (rest : Spelled t cs) : Spelled (.char c :: t) ('\\' :: e :: cs)
  | unit {a b c d : Char} {code : Nat} {t : StringToken} {cs : List Char}
      (digits : hexUnit? a b c d = some code) (rest : Spelled t cs) :
      Spelled (.unit code :: t) ('\\' :: 'u' :: a :: b :: c :: d :: cs)

structure Digits (ds : List Char) : Prop where
  nonempty : ds ≠ []
  digits : ∀ c ∈ ds, c.isDigit

namespace NumberToken

inductive FractionSpelled : Option (List Char) → List Char → Prop
  | none : FractionSpelled none []
  | point {ds : List Char} (digits : Digits ds) : FractionSpelled (some ds) ('.' :: ds)

inductive ExponentSpelled : Option Int → List Char → Prop
  | none : ExponentSpelled none []
  | unsigned {e : Char} {ds : List Char} (mark : e = 'e' ∨ e = 'E') (digits : Digits ds) :
      ExponentSpelled (some (Decimal.ofDigits ds)) (e :: ds)
  | plus {e : Char} {ds : List Char} (mark : e = 'e' ∨ e = 'E') (digits : Digits ds) :
      ExponentSpelled (some (Decimal.ofDigits ds)) (e :: '+' :: ds)
  | minus {e : Char} {ds : List Char} (mark : e = 'e' ∨ e = 'E') (digits : Digits ds) :
      ExponentSpelled (some (-(Decimal.ofDigits ds : Int))) (e :: '-' :: ds)

/-- The ways to write a number. -/
inductive Spelled (n : NumberToken) : List Char → Prop
  | mk {point mark : List Char} (whole : Digits n.whole)
      (leading : n.whole.head? = some '0' → n.whole.length = 1)
      (fraction : FractionSpelled n.fraction point) (exponent : ExponentSpelled n.exponent mark) :
      Spelled n ((if n.negative then ['-'] else []) ++ (n.whole ++ (point ++ mark)))

end NumberToken

/-- The ways to write a token. -/
inductive Token.Spelled : Token → List Char → Prop
  | openArray : Spelled .openArray ['[']
  | closeArray : Spelled .closeArray [']']
  | openObject : Spelled .openObject ['\x7b']
  | closeObject : Spelled .closeObject ['\x7d']
  | comma : Spelled .comma [',']
  | colon : Spelled .colon [':']
  | null : Spelled .null ['n', 'u', 'l', 'l']
  | true : Spelled (.bool true) ['t', 'r', 'u', 'e']
  | false : Spelled (.bool false) ['f', 'a', 'l', 's', 'e']
  | number {n : NumberToken} {cs : List Char} (spelled : n.Spelled cs) : Spelled (.number n) cs
  | string {s : StringToken} {cs : List Char} (spelled : s.Spelled cs) :
      Spelled (.string s) ('"' :: (cs ++ ['"']))

/-- A text that writes tokens, with blanks anywhere between them. -/
inductive Lexes : List Char → List Token → Prop
  | nil : Lexes [] []
  | blank {c : Char} {cs : List Char} {ts : List Token} (space : isSpace c) (rest : Lexes cs ts) :
      Lexes (c :: cs) ts
  | token {t : Token} {ts : List Token} {spelled cs : List Char} (first : t.Spelled spelled)
      (rest : Lexes cs ts) : Lexes (spelled ++ cs) (t :: ts)

namespace Syntax

/-- The tokens that make up a syntax tree. -/
def tokens : Syntax → List Token
  | .null => [.null]
  | .bool b => [.bool b]
  | .number n => [.number n]
  | .string s => [.string s]
  | .array items => .openArray :: (tokensItems items ++ [.closeArray])
  | .object members => .openObject :: (tokensMembers members ++ [.closeObject])
where
  tokensItems : List Syntax → List Token
    | [] => []
    | [s] => s.tokens
    | s :: t :: rest => s.tokens ++ .comma :: tokensItems (t :: rest)
  tokensMembers : List (StringToken × Syntax) → List Token
    | [] => []
    | [(name, s)] => .string name :: .colon :: s.tokens
    | (name, s) :: t :: rest =>
      .string name :: .colon :: (s.tokens ++ .comma :: tokensMembers (t :: rest))

/-- The texts that are JSON, each with a syntax tree of it. -/
def Written (text : List Char) (s : Syntax) : Prop :=
  Lexes text s.tokens

end Syntax

theorem scanString_spelled {cs rest : List Char} {t : StringToken}
    (read : scanString cs = some (t, rest)) :
    ∃ spelled, t.Spelled spelled ∧ cs = spelled ++ '"' :: rest := by
  fun_induction scanString cs generalizing t with
  | case1 | case3 | case5 | case7 => cases read
  | case2 =>
    cases read
    exact ⟨[], .nil, rfl⟩
  | case4 a b c d cs code digits ih =>
    obtain ⟨⟨t, rest⟩, inner, eq⟩ := Option.map_eq_some_iff.mp read
    cases eq
    obtain ⟨spelled, written, rfl⟩ := ih inner
    exact ⟨_, .unit digits written, rfl⟩
  | case6 e cs _ c known ih =>
    obtain ⟨⟨t, rest⟩, inner, eq⟩ := Option.map_eq_some_iff.mp read
    cases eq
    obtain ⟨spelled, written, rfl⟩ := ih inner
    exact ⟨_, .escape known written, rfl⟩
  | case8 c cs quote _ _ plain ih =>
    obtain ⟨⟨t, rest⟩, inner, eq⟩ := Option.map_eq_some_iff.mp read
    cases eq
    obtain ⟨spelled, written, rfl⟩ := ih inner
    obtain ⟨backslash, printable⟩ := not_or.mp plain
    exact ⟨_, .char quote backslash (Nat.le_of_not_lt printable) written, rfl⟩

theorem digits_takeWhile {cs : List Char} (found : ¬(cs.takeWhile Char.isDigit).isEmpty) :
    Digits (cs.takeWhile Char.isDigit) where
  nonempty := by simpa only [List.isEmpty_iff] using found
  digits := List.all_eq_true.mp List.all_takeWhile

theorem scanFraction_spelled {cs rest : List Char} {fraction : Option (List Char)}
    (read : scanFraction cs = some (fraction, rest)) :
    ∃ spelled, NumberToken.FractionSpelled fraction spelled ∧ cs = spelled ++ rest := by
  unfold scanFraction at read
  split at read
  · dsimp only at read
    split at read
    · cases read
    · next found =>
      cases read
      refine ⟨_, .point (digits_takeWhile found), ?_⟩
      rw [List.cons_append, List.takeWhile_append_dropWhile]
  · cases read
    exact ⟨[], .none, rfl⟩

/-- A sign as it is read may be written in full, or not at all. -/
theorem exponentSpelled_of_splitSign {e : Char} {cs after ds : List Char} {negative : Bool}
    (mark : e = 'e' ∨ e = 'E') (sign : Decimal.splitSign cs = (negative, after))
    (digits : Digits ds) :
    ∃ spelled, NumberToken.ExponentSpelled
        (some (if negative then -(Decimal.ofDigits ds : Int) else Decimal.ofDigits ds)) spelled ∧
      ∀ rest, after = ds ++ rest → e :: cs = spelled ++ rest := by
  unfold Decimal.splitSign at sign
  split at sign
  · cases sign
    exact ⟨_, .minus mark digits, by rintro rest rfl; rfl⟩
  · cases sign
    exact ⟨_, .plus mark digits, by rintro rest rfl; rfl⟩
  · cases sign
    exact ⟨_, .unsigned mark digits, by rintro rest rfl; rfl⟩

theorem scanExponent_spelled {cs rest : List Char} {exponent : Option Int}
    (read : scanExponent cs = some (exponent, rest)) :
    ∃ spelled, NumberToken.ExponentSpelled exponent spelled ∧ cs = spelled ++ rest := by
  cases cs with
  | nil =>
    cases read
    exact ⟨[], .none, rfl⟩
  | cons c cs =>
    rw [scanExponent] at read
    split at read
    · next mark =>
      rcases sign : Decimal.splitSign cs with ⟨negative, after⟩
      simp only [sign] at read
      split at read
      · cases read
      · next found =>
        obtain ⟨spelled, written, split⟩ :=
          exponentSpelled_of_splitSign mark sign (digits_takeWhile found)
        cases read
        exact ⟨spelled, written, split _ List.takeWhile_append_dropWhile.symm⟩
    · cases read
      exact ⟨[], .none, rfl⟩

theorem scanNumber_spelled {cs rest : List Char} {n : NumberToken}
    (read : scanNumber cs = some (n, rest)) :
    ∃ spelled, n.Spelled spelled ∧ cs = spelled ++ rest := by
  revert read
  fun_cases scanNumber cs with
  | case1 | case2 | case3 =>
    intro read
    cases read
  | case4 negative unsigned sign whole valid fraction afterPoint first exponent rest second =>
    intro read
    cases read
    obtain ⟨found, leading⟩ := not_or.mp valid
    obtain ⟨point, fractionSpelled, eq⟩ := scanFraction_spelled first
    obtain ⟨mark, exponentSpelled, rfl⟩ := scanExponent_spelled second
    have signed : cs = (if negative then ['-'] else []) ++ unsigned := by
      split at sign
      · cases sign
        rfl
      · cases sign
        rfl
    refine ⟨_, .mk (digits_takeWhile found) ?_ fractionSpelled exponentSpelled, ?_⟩
    · intro zero
      have short := not_and.mp leading zero
      have long := List.length_pos_iff.mpr (digits_takeWhile found).nonempty
      dsimp only [whole] at short ⊢
      omega
    · have split : whole ++ unsigned.dropWhile Char.isDigit = unsigned :=
        List.takeWhile_append_dropWhile
      simp only [List.append_assoc]
      rw [← eq, split, signed]

theorem after?_eq {word cs rest : List Char} (read : after? word cs = some rest) :
    cs = word ++ rest := by
  fun_induction after? word cs with
  | case1 =>
    cases read
    rfl
  | case2 w ws cs ih => rw [ih read, List.cons_append]
  | case3 | case4 => cases read

theorem scanToken_spelled {cs rest : List Char} {t : Token}
    (read : scanToken cs = some (t, rest)) :
    ∃ spelled, t.Spelled spelled ∧ cs = spelled ++ rest := by
  unfold scanToken at read
  split at read
  · cases read
  · cases read
    exact ⟨_, .openArray, rfl⟩
  · cases read
    exact ⟨_, .closeArray, rfl⟩
  · cases read
    exact ⟨_, .openObject, rfl⟩
  · cases read
    exact ⟨_, .closeObject, rfl⟩
  · cases read
    exact ⟨_, .comma, rfl⟩
  · cases read
    exact ⟨_, .colon, rfl⟩
  · obtain ⟨⟨s, rest⟩, inner, eq⟩ := Option.map_eq_some_iff.mp read
    cases eq
    obtain ⟨spelled, written, rfl⟩ := scanString_spelled inner
    exact ⟨_, .string written, by simp⟩
  · obtain ⟨rest, word, eq⟩ := Option.map_eq_some_iff.mp read
    cases eq
    exact ⟨_, .null, by rw [after?_eq word]; rfl⟩
  · obtain ⟨rest, word, eq⟩ := Option.map_eq_some_iff.mp read
    cases eq
    exact ⟨_, .true, by rw [after?_eq word]; rfl⟩
  · obtain ⟨rest, word, eq⟩ := Option.map_eq_some_iff.mp read
    cases eq
    exact ⟨_, .false, by rw [after?_eq word]; rfl⟩
  · obtain ⟨⟨n, rest⟩, inner, eq⟩ := Option.map_eq_some_iff.mp read
    cases eq
    obtain ⟨spelled, written, rfl⟩ := scanNumber_spelled inner
    exact ⟨_, .number written, rfl⟩

theorem lexes_of_scan {fuel : Nat} {cs : List Char} {ts : List Token}
    (read : scan fuel cs = some ts) : Lexes cs ts := by
  fun_induction scan fuel cs generalizing ts with
  | case1 =>
    cases read
    exact .nil
  | case2 => cases read
  | case3 fuel c cs space ih => exact .blank space (ih read)
  | case4 => cases read
  | case5 fuel c cs _ t rest first ih =>
    obtain ⟨ts, after, rfl⟩ := Option.map_eq_some_iff.mp read
    obtain ⟨spelled, written, eq⟩ := scanToken_spelled first
    rw [eq]
    exact .token written (ih after)

namespace Syntax

/-- What is read from tokens comes first among them, and an end is read with items and members. -/
structure Reads (fuel : Nat) : Prop where
  value : ∀ ts s rest, value fuel ts = some (s, rest) → ts = s.tokens ++ rest
  items : ∀ ts vs rest, items fuel ts = some (vs, rest) →
    vs ≠ [] ∧ ts = tokens.tokensItems vs ++ .closeArray :: rest
  members : ∀ ts ms rest, members fuel ts = some (ms, rest) →
    ms ≠ [] ∧ ts = tokens.tokensMembers ms ++ .closeObject :: rest

theorem tokensItems_cons (s : Syntax) {rest : List Syntax} (more : rest ≠ []) :
    tokens.tokensItems (s :: rest) = s.tokens ++ .comma :: tokens.tokensItems rest := by
  obtain ⟨t, rest, rfl⟩ := List.exists_cons_of_ne_nil more
  rfl

theorem tokensMembers_cons (name : StringToken) (s : Syntax)
    {rest : List (StringToken × Syntax)} (more : rest ≠ []) :
    tokens.tokensMembers ((name, s) :: rest) =
      .string name :: .colon :: (s.tokens ++ .comma :: tokens.tokensMembers rest) := by
  obtain ⟨t, rest, rfl⟩ := List.exists_cons_of_ne_nil more
  rfl

theorem reads (fuel : Nat) : Reads fuel := by
  induction fuel with
  | zero =>
    refine ⟨?_, ?_, ?_⟩
    all_goals
      intro ts _ rest read
      cases read
  | succ fuel ih =>
    refine ⟨?_, ?_, ?_⟩
    · intro ts s rest read
      unfold value at read
      split at read
      case h_1 | h_10 => cases read
      case h_7 succ =>
        cases succ
        obtain ⟨⟨vs, rest⟩, inner, eq⟩ := Option.map_eq_some_iff.mp read
        cases eq
        obtain ⟨-, rfl⟩ := ih.items _ _ _ inner
        simp [tokens]
      case h_9 succ =>
        cases succ
        obtain ⟨⟨ms, rest⟩, inner, eq⟩ := Option.map_eq_some_iff.mp read
        cases eq
        obtain ⟨-, rfl⟩ := ih.members _ _ _ inner
        simp [tokens]
      all_goals
        cases read
        rfl
    · intro ts vs rest read
      rw [items] at read
      split at read
      · next v tail first =>
        cases read
        exact ⟨by simp, ih.value _ _ _ first⟩
      · next v tail first =>
        obtain ⟨⟨vs, rest⟩, inner, eq⟩ := Option.map_eq_some_iff.mp read
        cases eq
        obtain ⟨more, rfl⟩ := ih.items _ _ _ inner
        refine ⟨by simp, ?_⟩
        rw [ih.value _ _ _ first, tokensItems_cons v more, List.append_assoc, List.cons_append]
      · cases read
    · intro ts ms rest read
      unfold members at read
      split at read
      · cases read
      · next name ts succ =>
        cases succ
        split at read
        · next v tail first =>
          cases read
          refine ⟨by simp, ?_⟩
          rw [ih.value _ _ _ first]
          rfl
        · next v tail first =>
          obtain ⟨⟨ms, rest⟩, inner, eq⟩ := Option.map_eq_some_iff.mp read
          cases eq
          obtain ⟨more, rfl⟩ := ih.members _ _ _ inner
          refine ⟨by simp, ?_⟩
          rw [ih.value _ _ _ first, tokensMembers_cons name v more]
          simp
        · cases read
      · cases read

/-- What is read from a text is written there. -/
theorem written_of_ofText? {text : String} {s : Syntax} (read : ofText? text = some s) :
    Written text.toList s := by
  obtain ⟨ts, scanned, read⟩ := Option.bind_eq_some_iff.mp read
  unfold ofTokens? at read
  split at read
  · next v whole =>
    cases read
    have eq := (reads _).value _ _ _ whole
    rw [List.append_nil] at eq
    rw [Written, ← eq]
    exact lexes_of_scan scanned
  · cases read

end Syntax

end BlockScript.Json
