import BlockScript.Value
/-!
Values and JSON.

There are two ways from a value to JSON, by its tree and by writing it piece by piece, and two ways
back, of which one refuses objects and the other makes text of them. The ways to JSON agree on all
values, the ways back wherever both lead, and there and back loses nothing but the numbers that are
not finite.
-/

namespace BlockScript

namespace Value

/-- A value with null in place of the numbers that are not finite. -/
def finitized : Value → Value
  | .null => .null
  | .bool b => .bool b
  | .number x => if x.isFinite then .number x else .null
  | .string s => .string s
  | .list items => .list (finitizedItems items)
where
  finitizedItems : List Value → List Value
    | [] => []
    | v :: vs => v.finitized :: finitizedItems vs

mutual

theorem ofJson_toJson : (v : Value) → ofJson v.toJson = v.finitized
  | .null => rfl
  | .bool _ => rfl
  | .number x => by
    rw [toJson, finitized]
    split <;> rfl
  | .string _ => rfl
  | .list items => by
    rw [toJson, ofJson, finitized, ofItems_toItems items]

theorem ofItems_toItems : (vs : List Value) →
    ofJson.ofItems (toJson.toItems vs) = finitized.finitizedItems vs
  | [] => rfl
  | v :: vs => by
    rw [toJson.toItems, ofJson.ofItems, finitized.finitizedItems, ofJson_toJson v,
      ofItems_toItems vs]

end

mutual

theorem write_tree : (v : Value) → v.write .tree = v.toJson
  | .null => rfl
  | .bool _ => rfl
  | .number _ => rfl
  | .string _ => rfl
  | .list items => congrArg Json.array (writeItems_tree items)

theorem writeItems_tree : (vs : List Value) → write.writeItems .tree vs = toJson.toItems vs
  | [] => rfl
  | v :: vs => by
    rw [write.writeItems, toJson.toItems, write_tree v, writeItems_tree vs]

end

end Value

namespace Json

theorem charsItems_eq (items : List Json) (first : List Char) :
    first ++ chars.charsItems items = [','].intercalate (first :: items.map chars) ++ [']'] := by
  induction items generalizing first with
  | nil => simp [chars.charsItems, List.intercalate]
  | cons j js ih =>
    rw [chars.charsItems, List.cons_append, ih j.chars]
    simp [List.intercalate]

theorem chars_array (items : List Json) :
    chars (.array items) = '[' :: [','].intercalate (items.map chars) ++ [']'] := by
  cases items with
  | nil => rfl
  | cons j js => rw [chars, List.cons_append, charsItems_eq, List.map_cons, List.cons_append]

end Json

namespace Value

mutual

/-- Written as text, a value is the text of its tree. -/
theorem write_text : (v : Value) → v.write .text = v.toJson.chars
  | .null => rfl
  | .bool true => rfl
  | .bool false => rfl
  | .number x => by
    rw [toJson, write]
    split
    · rfl
    · next infinite => simp [Json.Writer.text, Json.floatChars, infinite, Json.chars]
  | .string _ => rfl
  | .list items => by
    rw [toJson, Json.chars_array, ← writeItems_text items]
    rfl

theorem writeItems_text : (vs : List Value) →
    write.writeItems .text vs = (toJson.toItems vs).map Json.chars
  | [] => rfl
  | v :: vs => by
    rw [write.writeItems, toJson.toItems, List.map_cons, write_text v, writeItems_text vs]

end

end Value

/-- A JSON tree occurs in another. -/
inductive Json.OccursIn (j : Json) : Json → Prop
  | self : OccursIn j j
  | item {items : List Json} {k : Json} (mem : k ∈ items) (inner : OccursIn j k) :
      OccursIn j (.array items)
  | member {es : List (String × Json)} {e : String × Json} (mem : e ∈ es)
      (inner : OccursIn j e.2) : OccursIn j (.object es)

/-- No object occurs in a JSON tree. -/
def Json.Objectless (j : Json) : Prop :=
  ∀ es, ¬OccursIn (.object es) j

namespace Json

theorem objectless_array {items : List Json} :
    (Json.array items).Objectless ↔ ∀ j ∈ items, j.Objectless := by
  constructor
  · intro none j mem es occurs
    exact none es (.item mem occurs)
  · intro none es occurs
    cases occurs with
    | item mem inner => exact none _ mem es inner

end Json

namespace Value

/-- Both ways back lead to the same from a tree that is neither an array nor an object. -/
theorem some_eq_some_iff_of_leaf {j : Json} (leaf : j.Objectless) (u v : Value) :
    some u = some v ↔ j.Objectless ∧ v = u := by
  rw [Option.some_inj, eq_comm]
  exact ⟨fun same => ⟨leaf, same⟩, fun both => both.2⟩

mutual

/-- The strict way back leads wherever there is no object, and to where the other leads. -/
theorem ofPlainJson?_eq_some_iff : (j : Json) → (v : Value) →
    (ofPlainJson? j = some v ↔ j.Objectless ∧ v = ofJson j)
  | .null, v => some_eq_some_iff_of_leaf (by rintro es ⟨⟩) _ v
  | .bool b, v => some_eq_some_iff_of_leaf (by rintro es ⟨⟩) _ v
  | .number n, v => some_eq_some_iff_of_leaf (by rintro es ⟨⟩) _ v
  | .string s, v => some_eq_some_iff_of_leaf (by rintro es ⟨⟩) _ v
  | .array items, v => by
    simp only [ofPlainJson?, ofJson, Json.objectless_array, Option.map_eq_some_iff,
      ofPlainItems_eq_some_iff items]
    constructor
    · rintro ⟨vs, ⟨none, rfl⟩, rfl⟩
      exact ⟨none, rfl⟩
    · rintro ⟨none, rfl⟩
      exact ⟨_, ⟨none, rfl⟩, rfl⟩
  | .object es, v => by
    constructor
    · rintro ⟨⟩
    · rintro ⟨none, -⟩
      exact absurd .self (none es)

theorem ofPlainItems_eq_some_iff : (js : List Json) → (vs : List Value) →
    (ofPlainJson?.ofPlainItems js = some vs ↔
      (∀ j ∈ js, j.Objectless) ∧ vs = ofJson.ofItems js)
  | [], vs => by simp [ofPlainJson?.ofPlainItems, ofJson.ofItems, eq_comm]
  | j :: js, vs => by
    have first := ofPlainJson?_eq_some_iff j
    have rest := ofPlainItems_eq_some_iff js
    rw [List.forall_mem_cons, ofJson.ofItems, ofPlainJson?.ofPlainItems]
    constructor
    · intro both
      split at both
      · next u us one more =>
        obtain ⟨none, rfl⟩ := (first u).mp one
        obtain ⟨nones, rfl⟩ := (rest us).mp more
        cases both
        exact ⟨⟨none, nones⟩, rfl⟩
      · cases both
    · rintro ⟨⟨none, nones⟩, rfl⟩
      rw [(first _).mpr ⟨none, rfl⟩, (rest _).mpr ⟨nones, rfl⟩]

end

/-- The conversions between values and JSON agree. From a value to a tree and back only the numbers
that are not finite are lost; written piece by piece, as a tree or as text, a value is the tree it
converts to; and the way back that refuses objects leads from all trees without them to where the
other leads. -/
theorem conversions_agree (v : Value) (j : Json) :
    ofJson v.toJson = v.finitized ∧
    v.write .tree = v.toJson ∧ v.serialize = v.toJson.compact ∧
    ((∃ u, ofPlainJson? j = some u) ↔ ∀ es, ¬Json.OccursIn (.object es) j) ∧
    ∀ u, ofPlainJson? j = some u → u = ofJson j := by
  refine ⟨ofJson_toJson v, write_tree v, congrArg String.ofList (write_text v), ⟨?_, ?_⟩, ?_⟩
  · rintro ⟨u, read⟩
    exact ((ofPlainJson?_eq_some_iff j u).mp read).1
  · intro none
    exact ⟨ofJson j, (ofPlainJson?_eq_some_iff j _).mpr ⟨none, rfl⟩⟩
  · intro u read
    exact ((ofPlainJson?_eq_some_iff j u).mp read).2

end Value

end BlockScript
