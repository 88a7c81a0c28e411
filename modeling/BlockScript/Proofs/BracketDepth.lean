import BlockScript.Nesting
import BlockScript.Proofs.TextGrammar
/-!
The bracket scan of a JSON text finds the depth of its syntax tree.

The scan knows nothing of tokens, but it does to each token as a whole what the token's kind says:
an opening bracket adds a level, a closing one takes a level away, and all else leaves the scan as
it was. In a string that holds because each escape is passed as a whole, so that the quote that
ends the scan's string is the one that ends the token.
-/

namespace BlockScript

namespace Nesting.Scan

open Json (Token StringToken NumberToken)

/-- A scan between two tokens. -/
abbrev between (depth deepest : Nat) : Scan :=
  { depth, deepest }

/-- A scan inside a string, with no escape begun. -/
abbrev within (depth deepest : Nat) : Scan :=
  { depth, deepest, inString := true }

/-- What a token does to a scan. -/
def take (s : Scan) : Token → Scan
  | .openArray | .openObject =>
    { s with depth := s.depth + 1, deepest := max s.deepest (s.depth + 1) }
  | .closeArray | .closeObject => { s with depth := s.depth - 1 }
  | _ => s

variable {d m : Nat}

theorem step_within {c : Char} (quote : c ≠ '"') (backslash : c ≠ '\\') :
    (within d m).step c = within d m := by
  simp [step, quote, backslash]

/-- Whatever follows a backslash is passed over with it. -/
theorem step_escape (c : Char) : ((within d m).step '\\').step c = within d m := by
  simp [step]

theorem step_hexDigit {c : Char} {n : Nat} (digit : Json.hexValue? c = some n) :
    (within d m).step c = within d m := by
  apply step_within
  · rintro rfl
    cases digit
  · rintro rfl
    cases digit

theorem foldl_string {t : StringToken} {cs : List Char} (spelled : t.Spelled cs) :
    cs.foldl step (within d m) = within d m := by
  induction spelled with
  | nil => rfl
  | char quote backslash _ _ ih => rw [List.foldl_cons, step_within quote backslash, ih]
  | escape _ _ ih => rw [List.foldl_cons, List.foldl_cons, step_escape, ih]
  | unit digits _ ih =>
    simp only [Json.hexUnit?, Option.bind_eq_bind, Option.bind_eq_some_iff] at digits
    obtain ⟨_, first, _, second, _, third, _, fourth, -⟩ := digits
    simp only [List.foldl_cons]
    rw [step_escape, step_hexDigit first, step_hexDigit second, step_hexDigit third,
      step_hexDigit fourth, ih]

/-- The characters that mean something to a scan outside strings. -/
def marks : List Char :=
  ['"', '\x7b', '[', '\x7d', ']']

theorem foldl_unmarked {cs : List Char} (unmarked : ∀ c ∈ cs, c ∉ marks) :
    cs.foldl step (between d m) = between d m := by
  induction cs with
  | nil => rfl
  | cons c cs ih =>
    obtain ⟨first, rest⟩ := List.forall_mem_cons.mp unmarked
    have same : (between d m).step c = between d m := by
      simp only [marks, List.mem_cons, List.not_mem_nil, or_false, not_or] at first
      simp [step, first]
    rw [List.foldl_cons, same, ih rest]

/-- A class of characters that no mark is in. -/
theorem unmarked_of_class {p : Char → Bool} (unmarked : marks.all fun c => !p c) {c : Char}
    (h : p c) : c ∉ marks := by
  intro marked
  have outside := List.all_eq_true.mp unmarked c marked
  rw [h] at outside
  cases outside

theorem unmarked_digits {ds : List Char} (digits : Json.Digits ds) : ∀ c ∈ ds, c ∉ marks := by
  intro c mem
  exact unmarked_of_class (by decide) (digits.digits c mem)

theorem unmarked_fraction {fraction : Option (List Char)} {cs : List Char}
    (spelled : NumberToken.FractionSpelled fraction cs) : ∀ c ∈ cs, c ∉ marks := by
  cases spelled with
  | none => simp
  | point digits => exact List.forall_mem_cons.mpr ⟨by decide, unmarked_digits digits⟩

theorem unmarked_exponent {exponent : Option Int} {cs : List Char}
    (spelled : NumberToken.ExponentSpelled exponent cs) : ∀ c ∈ cs, c ∉ marks := by
  have letter {e : Char} (mark : e = 'e' ∨ e = 'E') : e ∉ marks := by
    obtain rfl | rfl := mark <;> decide
  cases spelled with
  | none => simp
  | unsigned mark digits =>
    exact List.forall_mem_cons.mpr ⟨letter mark, unmarked_digits digits⟩
  | plus mark digits | minus mark digits =>
    refine List.forall_mem_cons.mpr ⟨letter mark, ?_⟩
    exact List.forall_mem_cons.mpr ⟨by decide, unmarked_digits digits⟩

theorem unmarked_number {n : NumberToken} {cs : List Char} (spelled : n.Spelled cs) :
    ∀ c ∈ cs, c ∉ marks := by
  cases spelled with
  | mk whole _ fraction exponent =>
    have sign : ∀ c ∈ (if n.negative then ['-'] else []), c ∉ marks := by
      intro c mem
      split at mem
      · rw [List.mem_singleton.mp mem]
        decide
      · cases mem
    simp only [List.forall_mem_append]
    exact ⟨sign, unmarked_digits whole, unmarked_fraction fraction, unmarked_exponent exponent⟩

/-- A scan takes a token as a whole. -/
theorem foldl_spelled {t : Token} {cs : List Char} (spelled : t.Spelled cs) :
    cs.foldl step (between d m) = (between d m).take t := by
  cases spelled with
  | number spelled => exact foldl_unmarked (unmarked_number spelled)
  | string spelled =>
    rw [List.foldl_cons, List.foldl_append]
    have opened : (between d m).step '"' = within d m := rfl
    rw [opened, foldl_string spelled]
    rfl
  | _ => rfl

theorem take_between (t : Token) : ∃ d' m', (between d m).take t = between d' m' := by
  cases t <;> exact ⟨_, _, rfl⟩

theorem foldl_lexes {cs : List Char} {ts : List Token} (lexes : Json.Lexes cs ts) :
    cs.foldl step (between d m) = ts.foldl take (between d m) := by
  induction lexes generalizing d m with
  | nil => rfl
  | @blank c cs ts space _ ih =>
    have unmarked : ∀ x ∈ [c], x ∉ marks := by
      intro x mem
      rw [List.mem_singleton.mp mem]
      exact unmarked_of_class (by decide) space
    have first : (between d m).step c = between d m := foldl_unmarked unmarked
    rw [List.foldl_cons, first, ih]
  | @token t ts spelled cs first _ ih =>
    obtain ⟨d', m', eq⟩ := take_between (d := d) (m := m) t
    rw [List.foldl_append, foldl_spelled first, List.foldl_cons, eq, ih]

/-- Brackets around tokens of some depth make up one level more. -/
theorem foldl_bracketed {opening closing : Token} {ts : List Token} {n : Nat}
    (opens : (between d m).take opening = between (d + 1) (max m (d + 1)))
    (closes : ∀ m, (between (d + 1) m).take closing = between d m)
    (inner : ts.foldl take (between (d + 1) (max m (d + 1))) =
      between (d + 1) (max (max m (d + 1)) (d + 1 + n))) :
    (opening :: (ts ++ [closing])).foldl take (between d m) =
      between d (max m (d + (n + 1))) := by
  have levels : max (max m (d + 1)) (d + 1 + n) = max m (d + (n + 1)) := by omega
  rw [List.foldl_cons, List.foldl_append, opens, inner, levels]
  exact closes _

end Nesting.Scan

namespace Json.Syntax

open Nesting.Scan

mutual

/-- Taking a tree leaves the brackets as they were and counts the levels of the tree on top of
those open. -/
theorem foldl_tokens {d m : Nat} (le : d ≤ m) : (s : Syntax) →
    s.tokens.foldl take (between d m) = between d (max m (d + s.depth))
  | .null | .bool _ | .number _ | .string _ => by
    have eq : max m (d + 0) = m := by omega
    simp only [tokens, depth, eq]
    rfl
  | .array items => by
    have inner := foldl_tokensItems (Nat.le_max_right m (d + 1)) items
    exact foldl_bracketed rfl (fun _ => rfl) inner
  | .object members => by
    have inner := foldl_tokensMembers (Nat.le_max_right m (d + 1)) members
    exact foldl_bracketed rfl (fun _ => rfl) inner

theorem foldl_tokensItems {d m : Nat} (le : d ≤ m) : (items : List Syntax) →
    (tokens.tokensItems items).foldl take (between d m) =
      between d (max m (d + depth.depthItems items))
  | [] => by
    have eq : max m (d + 0) = m := by omega
    simp only [tokens.tokensItems, depth.depthItems, eq]
    rfl
  | [s] => by
    rw [tokens.tokensItems, foldl_tokens le s]
    simp [depth.depthItems]
  | s :: t :: rest => by
    have le' : d ≤ max m (d + s.depth) := by omega
    have comma : (between d (max m (d + s.depth))).take .comma =
      between d (max m (d + s.depth)) := rfl
    rw [tokens.tokensItems, List.foldl_append, foldl_tokens le s, List.foldl_cons, comma,
      foldl_tokensItems le' (t :: rest), depth.depthItems.eq_2 s]
    congr 1
    omega

theorem foldl_tokensMembers {d m : Nat} (le : d ≤ m) : (members : List (StringToken × Syntax)) →
    (tokens.tokensMembers members).foldl take (between d m) =
      between d (max m (d + depth.depthMembers members))
  | [] => by
    have eq : max m (d + 0) = m := by omega
    simp only [tokens.tokensMembers, depth.depthMembers, eq]
    rfl
  | [(name, s)] => by
    have named : ((between d m).take (.string name)).take .colon = between d m := rfl
    rw [tokens.tokensMembers, List.foldl_cons, List.foldl_cons, named, foldl_tokens le s]
    simp [depth.depthMembers]
  | (name, s) :: t :: rest => by
    have le' : d ≤ max m (d + s.depth) := by omega
    have named : ((between d m).take (.string name)).take .colon = between d m := rfl
    have comma : (between d (max m (d + s.depth))).take .comma =
      between d (max m (d + s.depth)) := rfl
    rw [tokens.tokensMembers, List.foldl_cons, List.foldl_cons, named, List.foldl_append,
      foldl_tokens le s, List.foldl_cons, comma, foldl_tokensMembers le' (t :: rest),
      depth.depthMembers.eq_2 name s]
    congr 1
    omega

end

/-- The scan of a text finds the depth of the tree it writes. -/
theorem Written.nesting_depth {text : List Char} {s : Syntax} (written : Written text s) :
    Nesting.depth text = s.depth := by
  have scanned : text.foldl Nesting.Scan.step {} = between 0 (max 0 (0 + s.depth)) :=
    (foldl_lexes written).trans (foldl_tokens (Nat.le_refl 0) s)
  rw [Nesting.depth, scanned]
  dsimp only
  omega

end Json.Syntax

end BlockScript
