import BlockScript.Proofs.CheckOrder
import BlockScript.Proofs.EntryMaps
import BlockScript.Proofs.NumberText
import BlockScript.Proofs.TextReading
/-!
What is written of a JSON tree, in either layout, and how it reads.

Both layouts write the same syntax tree, which nests as deep as the JSON tree. With its members in
order, the tree is what the syntax tree stands for just when every number in it, written on its own,
reads back as itself. Strings always read back.
-/

namespace BlockScript.Json

/-! ### Strings -/

/-- How a character is written in a string: control characters that have no letter of their own are
given by their code. -/
def piece (c : Char) : Piece :=
  if c.toNat < 0x20 ∧ c ∉ ['\x08', '\t', '\n', '\x0c', '\r'] then .unit c.toNat else .char c

def pieces (s : String) : StringToken :=
  s.toList.map piece

theorem hexUnit?_control : ∀ n < 0x20,
    hexUnit? '0' '0' (hexDigit (n / 16)) (hexDigit n) = some n := by
  decide

theorem spelled_piece (c : Char) {t : StringToken} {cs : List Char} (rest : t.Spelled cs) :
    StringToken.Spelled (piece c :: t) (escapeChar c ++ cs) := by
  by_cases lettered : c ∈ ['"', '\\', '\x08', '\t', '\n', '\x0c', '\r']
  · simp only [List.mem_cons, List.not_mem_nil, or_false] at lettered
    obtain rfl | rfl | rfl | rfl | rfl | rfl | rfl := lettered
    all_goals exact .escape rfl rest
  · simp only [List.mem_cons, List.not_mem_nil, or_false, not_or] at lettered
    obtain ⟨quote, backslash, backspace, tab, newline, feed, ret⟩ := lettered
    by_cases control : c.toNat < 0x20
    · have coded : piece c = .unit c.toNat := by
        simp [piece, control, backspace, tab, newline, feed, ret]
      simp only [escapeChar, coded, quote, backslash, backspace, tab, newline, feed, ret, control,
        if_true, if_false]
      exact .unit (hexUnit?_control _ control) rest
    · have plain : piece c = .char c := by simp [piece, control]
      simp only [escapeChar, plain, quote, backslash, backspace, tab, newline, feed, ret, control,
        if_false]
      exact .char quote backslash (Nat.le_of_not_lt control) rest

theorem spelled_pieces (cs : List Char) :
    StringToken.Spelled (cs.map piece) (cs.flatMap escapeChar) := by
  induction cs with
  | nil => exact .nil
  | cons c cs ih => exact spelled_piece c ih

theorem StringToken.chars?_unit {code : Nat} (low : code < 0xD800) (rest : StringToken) :
    StringToken.chars? (.unit code :: rest) =
      (StringToken.chars? rest).map (Char.ofNat code :: ·) := by
  cases rest with
  | nil => simp [StringToken.chars?, low]
  | cons p rest => cases p <;> simp [StringToken.chars?, low]

theorem chars?_pieces (cs : List Char) : StringToken.chars? (cs.map piece) = some cs := by
  induction cs with
  | nil => rfl
  | cons c cs ih =>
    rw [List.map_cons, piece]
    split
    · next control =>
      have low : c.toNat < 0xD800 := Nat.lt_trans control.1 (by decide)
      rw [StringToken.chars?_unit low, ih, Char.ofNat_toNat]
      rfl
    · rw [StringToken.chars?, ih]
      rfl

theorem text?_pieces (s : String) : (pieces s).text? = some s := by
  rw [StringToken.text?, pieces, chars?_pieces, Option.map_some, String.ofList_toList]

theorem spelled_quoted (s : String) : Token.Spelled (.string (pieces s)) (quoted s) := by
  have spelled := spelled_pieces s.toList
  exact .string spelled

/-! ### Texts put together -/

namespace Lexes

variable {cs ds : List Char} {ts us : List Token}

theorem append (h : Lexes cs ts) (k : Lexes ds us) : Lexes (cs ++ ds) (ts ++ us) := by
  induction h with
  | nil => exact k
  | blank space _ ih => exact .blank space ih
  | token first _ ih =>
    rw [List.append_assoc]
    exact .token first ih

theorem newline (level : Nat) (h : Lexes cs ts) : Lexes (newline level ++ cs) ts := by
  have spaces (n : Nat) : Lexes (List.replicate n ' ' ++ cs) ts := by
    induction n with
    | zero => exact h
    | succ n ih => exact .blank rfl ih
  exact .blank rfl (spaces (2 * level))

end Lexes

/-! ### Numbers -/

namespace Number

/-- A number that, written on its own, reads back as itself. -/
def ReadsBack (n : Number) : Prop :=
  ofText? (Json.number n).compact = some (.number n)

/-- What a number is written as, if it is written as a number at all. -/
def token (n : Number) : NumberToken :=
  match Syntax.ofText? (Json.number n).compact with
  | some (.number t) => t
  | _ => { negative := false, whole := [], fraction := none, exponent := none }

variable {n : Number}

theorem ofText?_number (finite : n.Finite) :
    Syntax.ofText? (Json.number n).compact = some (.number n.token) := by
  obtain ⟨t, spelled⟩ := spelled_chars finite
  have written : Lexes (n.chars ++ []) [.number t] := .token (.number spelled) .nil
  rw [List.append_nil] at written
  have read : Syntax.ofText? (Json.number n).compact = some (.number t) := by
    rw [Syntax.ofText?_eq_some_iff, Syntax.Written, compact, String.toList_ofList]
    exact written
  rw [token, read]

theorem lexes_token (finite : n.Finite) : Lexes n.chars [.number n.token] := by
  have written := Syntax.written_of_ofText? (ofText?_number finite)
  rwa [compact, String.toList_ofList] at written

theorem readsBack_iff (finite : n.Finite) : n.ReadsBack ↔ n.token.number? = some n := by
  have shallow : (Syntax.number n.token).depth < nestingLimit := by
    change 0 < nestingLimit
    decide
  rw [ReadsBack, ofText?, ofText?_number finite, Option.bind_some, if_pos shallow, Syntax.json?]
  simp

end Number

/-! ### Trees -/

/-- The numbers in a tree. -/
def numbers : Json → List Number
  | .number n => [n]
  | .array items => numbersItems items
  | .object es => numbersEntries es
  | _ => []
where
  numbersItems : List Json → List Number
    | [] => []
    | j :: js => j.numbers ++ numbersItems js
  numbersEntries : List (String × Json) → List Number
    | [] => []
    | (_, j) :: es => j.numbers ++ numbersEntries es

theorem forall_numbers_array {P : Number → Prop} {items : List Json} :
    (∀ n ∈ (Json.array items).numbers, P n) ↔ ∀ j ∈ items, ∀ n ∈ j.numbers, P n := by
  change (∀ n ∈ numbers.numbersItems items, P n) ↔ _
  induction items with
  | nil => simp [numbers.numbersItems]
  | cons j js ih => rw [numbers.numbersItems, List.forall_mem_append, ih, List.forall_mem_cons]

theorem forall_numbers_object {P : Number → Prop} {es : List (String × Json)} :
    (∀ n ∈ (Json.object es).numbers, P n) ↔ ∀ e ∈ es, ∀ n ∈ e.2.numbers, P n := by
  change (∀ n ∈ numbers.numbersEntries es, P n) ↔ _
  induction es with
  | nil => simp [numbers.numbersEntries]
  | cons e es ih =>
    obtain ⟨name, j⟩ := e
    rw [numbers.numbersEntries, List.forall_mem_append, ih, List.forall_mem_cons]

/-- Every number in the tree is finite. -/
def Finite (j : Json) : Prop :=
  ∀ n ∈ j.numbers, n.Finite

/-- Every number in the tree reads back. -/
def Legible (j : Json) : Prop :=
  ∀ n ∈ j.numbers, n.ReadsBack

theorem finite_array {items : List Json} : (Json.array items).Finite ↔ ∀ j ∈ items, j.Finite :=
  forall_numbers_array

theorem finite_object {es : List (String × Json)} :
    (Json.object es).Finite ↔ ∀ e ∈ es, e.2.Finite :=
  forall_numbers_object

theorem legible_array {items : List Json} :
    (Json.array items).Legible ↔ ∀ j ∈ items, j.Legible :=
  forall_numbers_array

theorem legible_object {es : List (String × Json)} :
    (Json.object es).Legible ↔ ∀ e ∈ es, e.2.Legible :=
  forall_numbers_object

/-- The syntax tree that is written of a tree. -/
def toSyntax : Json → Syntax
  | .null => .null
  | .bool b => .bool b
  | .number n => .number n.token
  | .string s => .string (pieces s)
  | .array items => .array (toItems items)
  | .object es => .object (toMembers es)
where
  toItems : List Json → List Syntax
    | [] => []
    | j :: js => j.toSyntax :: toItems js
  toMembers : List (String × Json) → List (StringToken × Syntax)
    | [] => []
    | (n, j) :: es => (pieces n, j.toSyntax) :: toMembers es

namespace Lexes

variable {cs ds : List Char} {ts : List Token} {s t : Syntax} {items : List Syntax}
  {n m : StringToken} {members : List (StringToken × Syntax)}

theorem openArray (h : Lexes cs ts) : Lexes ('[' :: cs) (.openArray :: ts) :=
  .token .openArray h

theorem openObject (h : Lexes cs ts) : Lexes ('\x7b' :: cs) (.openObject :: ts) :=
  .token .openObject h

theorem lastItem (h : Lexes cs s.tokens) (k : Lexes ds [.closeArray]) :
    Lexes (cs ++ ds) (Syntax.tokens.tokensItems [s] ++ [.closeArray]) :=
  h.append k

theorem item (h : Lexes cs s.tokens)
    (k : Lexes ds (Syntax.tokens.tokensItems (t :: items) ++ [.closeArray])) :
    Lexes (cs ++ ',' :: ds) (Syntax.tokens.tokensItems (s :: t :: items) ++ [.closeArray]) := by
  rw [Syntax.tokensItems_cons s (List.cons_ne_nil t items), List.append_assoc]
  exact h.append (.token .comma k)

theorem named (name : String) (h : Lexes cs s.tokens) :
    Lexes (quoted name ++ ':' :: cs) (Syntax.tokens.tokensMembers [(pieces name, s)]) :=
  .token (spelled_quoted name) (.token .colon h)

theorem lastMember (h : Lexes cs (Syntax.tokens.tokensMembers [(n, s)]))
    (k : Lexes ds [.closeObject]) :
    Lexes (cs ++ ds) (Syntax.tokens.tokensMembers [(n, s)] ++ [.closeObject]) :=
  h.append k

theorem member (h : Lexes cs (Syntax.tokens.tokensMembers [(n, s)]))
    (k : Lexes ds (Syntax.tokens.tokensMembers ((m, t) :: members) ++ [.closeObject])) :
    Lexes (cs ++ ',' :: ds)
      (Syntax.tokens.tokensMembers ((n, s) :: (m, t) :: members) ++ [.closeObject]) := by
  have all := h.append (.token .comma k)
  rw [Syntax.tokensMembers_cons n s (List.cons_ne_nil (m, t) members)]
  simpa [Syntax.tokens.tokensMembers] using all

end Lexes

mutual

theorem lexes_chars : (j : Json) → j.Finite → Lexes j.chars j.toSyntax.tokens
  | .null, _ => .token .null .nil
  | .bool true, _ => .token .true .nil
  | .bool false, _ => .token .false .nil
  | .number n, h => Number.lexes_token (h n List.mem_cons_self)
  | .string s, _ => by
    have written := Lexes.token (spelled_quoted s) .nil
    rwa [List.append_nil] at written
  | .array [], _ => .token .openArray (.token .closeArray .nil)
  | .object [], _ => .token .openObject (.token .closeObject .nil)
  | .array (j :: js), h => by
    obtain ⟨finite, others⟩ := List.forall_mem_cons.mp (finite_array.mp h)
    have first := lexes_chars j finite
    exact (lexes_charsItems js others first).openArray
  | .object ((n, j) :: es), h => by
    obtain ⟨finite, others⟩ := List.forall_mem_cons.mp (finite_object.mp h)
    have first := lexes_chars j finite
    exact (lexes_charsEntries es others (first.named n)).openObject

theorem lexes_charsItems : (js : List Json) → (∀ j ∈ js, j.Finite) → {cs : List Char} →
    {s : Syntax} → Lexes cs s.tokens →
      Lexes (cs ++ chars.charsItems js)
        (Syntax.tokens.tokensItems (s :: toSyntax.toItems js) ++ [.closeArray])
  | [], _, _, _, h => h.lastItem (.token .closeArray .nil)
  | j :: js, inside, _, _, h => by
    obtain ⟨finite, others⟩ := List.forall_mem_cons.mp inside
    have first := lexes_chars j finite
    exact h.item (lexes_charsItems js others first)

theorem lexes_charsEntries : (es : List (String × Json)) → (∀ e ∈ es, e.2.Finite) →
    {cs : List Char} → {n : StringToken} → {s : Syntax} →
    Lexes cs (Syntax.tokens.tokensMembers [(n, s)]) →
      Lexes (cs ++ chars.charsEntries es)
        (Syntax.tokens.tokensMembers ((n, s) :: toSyntax.toMembers es) ++ [.closeObject])
  | [], _, _, _, _, h => h.lastMember (.token .closeObject .nil)
  | (m, j) :: es, inside, _, _, _, h => by
    obtain ⟨finite, others⟩ := List.forall_mem_cons.mp inside
    have first := lexes_chars j finite
    have rest := lexes_charsEntries es others (first.named m)
    simpa [chars.charsEntries, toSyntax.toMembers] using h.member rest

end

mutual

theorem lexes_prettyChars : (j : Json) → j.Finite → (level : Nat) →
    Lexes (j.prettyChars level) j.toSyntax.tokens
  | .null, h, _ => lexes_chars _ h
  | .bool _, h, _ => lexes_chars _ h
  | .number _, h, _ => lexes_chars _ h
  | .string _, h, _ => lexes_chars _ h
  | .array [], h, _ => lexes_chars _ h
  | .object [], h, _ => lexes_chars _ h
  | .array (j :: js), h, level => by
    obtain ⟨finite, others⟩ := List.forall_mem_cons.mp (finite_array.mp h)
    have first := lexes_prettyChars j finite (level + 1)
    exact (lexes_prettyItems js others level (first.newline (level + 1))).openArray
  | .object ((n, j) :: es), h, level => by
    obtain ⟨finite, others⟩ := List.forall_mem_cons.mp (finite_object.mp h)
    have first := lexes_prettyChars j finite (level + 1)
    have named := (first.blank (c := ' ') rfl).named n
    have rest := lexes_prettyEntries es others level (named.newline (level + 1))
    simpa [prettyChars, toSyntax, toSyntax.toMembers, Syntax.tokens] using rest.openObject

theorem lexes_prettyItems : (js : List Json) → (∀ j ∈ js, j.Finite) → (level : Nat) →
    {cs : List Char} → {s : Syntax} → Lexes cs s.tokens →
      Lexes (cs ++ prettyChars.prettyItems level js)
        (Syntax.tokens.tokensItems (s :: toSyntax.toItems js) ++ [.closeArray])
  | [], _, level, _, _, h => h.lastItem ((Lexes.token .closeArray .nil).newline level)
  | j :: js, inside, level, _, _, h => by
    obtain ⟨finite, others⟩ := List.forall_mem_cons.mp inside
    have first := lexes_prettyChars j finite (level + 1)
    exact h.item (lexes_prettyItems js others level (first.newline (level + 1)))

theorem lexes_prettyEntries : (es : List (String × Json)) → (∀ e ∈ es, e.2.Finite) →
    (level : Nat) → {cs : List Char} → {n : StringToken} → {s : Syntax} →
    Lexes cs (Syntax.tokens.tokensMembers [(n, s)]) →
      Lexes (cs ++ prettyChars.prettyEntries level es)
        (Syntax.tokens.tokensMembers ((n, s) :: toSyntax.toMembers es) ++ [.closeObject])
  | [], _, level, _, _, _, h => h.lastMember ((Lexes.token .closeObject .nil).newline level)
  | (m, j) :: es, inside, level, _, _, _, h => by
    obtain ⟨finite, others⟩ := List.forall_mem_cons.mp inside
    have first := lexes_prettyChars j finite (level + 1)
    have named := (first.blank (c := ' ') rfl).named m
    have rest := lexes_prettyEntries es others level (named.newline (level + 1))
    simpa [prettyChars.prettyEntries, toSyntax.toMembers] using h.member rest

end

mutual

theorem depth_toSyntax : (j : Json) → j.toSyntax.depth = j.depth
  | .null | .bool _ | .number _ | .string _ => rfl
  | .array items => congrArg (· + 1) (depth_toItems items)
  | .object es => congrArg (· + 1) (depth_toMembers es)

theorem depth_toItems : (js : List Json) →
    Syntax.depth.depthItems (toSyntax.toItems js) = depth.depthItems js
  | [] => rfl
  | j :: js => by
    rw [toSyntax.toItems, Syntax.depth.depthItems, depth.depthItems, depth_toSyntax, depth_toItems]

theorem depth_toMembers : (es : List (String × Json)) →
    Syntax.depth.depthMembers (toSyntax.toMembers es) = depth.depthEntries es
  | [] => rfl
  | (n, j) :: es => by
    rw [toSyntax.toMembers, Syntax.depth.depthMembers, depth.depthEntries, depth_toSyntax,
      depth_toMembers]

end

theorem jsonItems_cons_eq_some {s : Syntax} {items : List Syntax} {j : Json} {js : List Json} :
    Syntax.json?.jsonItems (s :: items) = some (j :: js) ↔
      s.json? = some j ∧ Syntax.json?.jsonItems items = some js := by
  rw [Syntax.json?.jsonItems]
  split <;> simp_all

theorem jsonMembers_cons_eq_some {name : String} {s : Syntax}
    {members : List (StringToken × Syntax)} {e : String × Json} {es : List (String × Json)} :
    Syntax.json?.jsonMembers ((pieces name, s) :: members) = some (e :: es) ↔
      name = e.1 ∧ s.json? = some e.2 ∧ Syntax.json?.jsonMembers members = some es := by
  obtain ⟨n, j⟩ := e
  rw [Syntax.json?.jsonMembers, text?_pieces]
  split <;> simp_all [and_assoc]

theorem names_jsonMembers {es fs : List (String × Json)}
    (read : Syntax.json?.jsonMembers (toSyntax.toMembers es) = some fs) :
    Entries.names fs = Entries.names es := by
  induction es generalizing fs with
  | nil =>
    cases read
    rfl
  | cons e es ih =>
    obtain ⟨name, j⟩ := e
    cases fs with
    | nil =>
      rw [toSyntax.toMembers, Syntax.json?.jsonMembers] at read
      split at read <;> cases read
    | cons f fs =>
      obtain ⟨eq, -, rest⟩ := jsonMembers_cons_eq_some.mp read
      exact congrArg₂ List.cons eq.symm (ih rest)

/-- Members written in order are read as they are: reading keeps their names, and so the order. -/
theorem json?_object_iff {es : List (String × Json)} (sorted : Entries.Sorted es) :
    (Json.object es).toSyntax.json? = some (.object es) ↔
      Syntax.json?.jsonMembers (toSyntax.toMembers es) = some es := by
  rw [toSyntax, Syntax.json?, Option.map_eq_some_iff]
  constructor
  · rintro ⟨fs, read, eq⟩
    have again : Entries.Sorted fs := by
      have names := List.pairwise_map.mpr sorted
      change (Entries.names es).Pairwise (· < ·) at names
      rw [← names_jsonMembers read] at names
      exact List.pairwise_map.mp names
    rw [again.ofList_eq] at eq
    cases eq
    exact read
  · intro read
    exact ⟨es, read, by rw [sorted.ofList_eq]⟩

mutual

/-- What is written of a tree stands for that tree if its numbers read back, and only then. -/
theorem json?_toSyntax_iff : (j : Json) → j.Ordered → j.Finite →
    (j.toSyntax.json? = some j ↔ j.Legible)
  | .null, _, _ => ⟨nofun, fun _ => rfl⟩
  | .bool _, _, _ => ⟨nofun, fun _ => rfl⟩
  | .number n, _, finite => by
    have number := Number.readsBack_iff (finite n List.mem_cons_self)
    rw [Legible, numbers, List.forall_mem_singleton, number, toSyntax, Syntax.json?]
    simp
  | .string s, _, _ => by
    refine ⟨nofun, fun _ => ?_⟩
    rw [toSyntax, Syntax.json?, text?_pieces]
    rfl
  | .array items, ordered, finite => by
    rw [legible_array, ← json?_toItems_iff items (fun _ => ordered.item) (finite_array.mp finite),
      toSyntax, Syntax.json?]
    simp
  | .object es, ordered, finite => by
    have sorted : Entries.Sorted es := by
      cases ordered with
      | object sorted _ => exact sorted
    rw [json?_object_iff sorted, legible_object]
    exact json?_toMembers_iff es (fun _ => ordered.entry) (finite_object.mp finite)

theorem json?_toItems_iff : (js : List Json) → (∀ j ∈ js, j.Ordered) → (∀ j ∈ js, j.Finite) →
    (Syntax.json?.jsonItems (toSyntax.toItems js) = some js ↔ ∀ j ∈ js, j.Legible)
  | [], _, _ => ⟨nofun, fun _ => rfl⟩
  | j :: js, ordered, finite => by
    rw [List.forall_mem_cons] at ordered finite ⊢
    rw [toSyntax.toItems, jsonItems_cons_eq_some, json?_toSyntax_iff j ordered.1 finite.1,
      json?_toItems_iff js ordered.2 finite.2]

theorem json?_toMembers_iff : (es : List (String × Json)) → (∀ e ∈ es, e.2.Ordered) →
    (∀ e ∈ es, e.2.Finite) →
    (Syntax.json?.jsonMembers (toSyntax.toMembers es) = some es ↔ ∀ e ∈ es, e.2.Legible)
  | [], _, _ => ⟨nofun, fun _ => rfl⟩
  | (n, j) :: es, ordered, finite => by
    rw [List.forall_mem_cons] at ordered finite ⊢
    rw [toSyntax.toMembers, jsonMembers_cons_eq_some, json?_toSyntax_iff j ordered.1 finite.1,
      json?_toMembers_iff es ordered.2 finite.2]
    exact and_iff_right rfl

end

section
variable {j : Json} (finite : j.Finite)
include finite

/-- Both layouts are read as the syntax tree written. -/
theorem ofText?_compact : Syntax.ofText? j.compact = some j.toSyntax := by
  rw [Syntax.ofText?_eq_some_iff, Syntax.Written, compact, String.toList_ofList]
  exact lexes_chars j finite

theorem ofText?_pretty : Syntax.ofText? j.pretty = some j.toSyntax := by
  rw [Syntax.ofText?_eq_some_iff, Syntax.Written, pretty, String.toList_ofList]
  exact lexes_prettyChars j finite 0

end

end BlockScript.Json
