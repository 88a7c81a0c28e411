import BlockScript.Json.Token
/-!
The syntax tree of a JSON text, and the JSON tree it stands for.

The syntax tree keeps members in the order written, repeated names included. `Syntax.json?` makes
a JSON tree of it: it refuses numbers out of range and unpaired surrogates, and of two members
with one name the later counts.
-/

namespace BlockScript.Json

inductive Syntax where
  | null
  | bool (b : Bool)
  | number (n : NumberToken)
  | string (s : StringToken)
  | array (items : List Syntax)
  | object (members : List (StringToken × Syntax))

namespace Syntax

mutual

/-- A value at the front of the tokens, and the tokens after it. -/
def value : (fuel : Nat) → List Token → Option (Syntax × List Token)
  | 0, _ => none
  | _ + 1, .null :: rest => some (.null, rest)
  | _ + 1, .bool b :: rest => some (.bool b, rest)
  | _ + 1, .number n :: rest => some (.number n, rest)
  | _ + 1, .string s :: rest => some (.string s, rest)
  | _ + 1, .openArray :: .closeArray :: rest => some (.array [], rest)
  | fuel + 1, .openArray :: rest => (items fuel rest).map fun (vs, r) => (.array vs, r)
  | _ + 1, .openObject :: .closeObject :: rest => some (.object [], rest)
  | fuel + 1, .openObject :: rest => (members fuel rest).map fun (ms, r) => (.object ms, r)
  | _ + 1, _ => none

/-- The items of an array up to its end, at least one. -/
def items : (fuel : Nat) → List Token → Option (List Syntax × List Token)
  | 0, _ => none
  | fuel + 1, ts =>
    match value fuel ts with
    | some (v, .closeArray :: rest) => some ([v], rest)
    | some (v, .comma :: rest) => (items fuel rest).map fun (vs, r) => (v :: vs, r)
    | _ => none

/-- The members of an object up to its end, at least one. -/
def members : (fuel : Nat) → List Token → Option (List (StringToken × Syntax) × List Token)
  | 0, _ => none
  | fuel + 1, .string name :: .colon :: ts =>
    match value fuel ts with
    | some (v, .closeObject :: rest) => some ([(name, v)], rest)
    | some (v, .comma :: rest) => (members fuel rest).map fun (ms, r) => ((name, v) :: ms, r)
    | _ => none
  | _ + 1, _ => none

end

/-- The value that makes up all of the tokens. Every second call takes a token, so twice their
number is fuel enough. -/
def ofTokens? (ts : List Token) : Option Syntax :=
  match value (2 * ts.length + 1) ts with
  | some (v, []) => some v
  | _ => none

def ofText? (text : String) : Option Syntax :=
  (tokens? text.toList).bind ofTokens?

/-- How many arrays and objects are open at once where most are. -/
def depth : Syntax → Nat
  | .array items => depthItems items + 1
  | .object members => depthMembers members + 1
  | _ => 0
where
  depthItems : List Syntax → Nat
    | [] => 0
    | s :: rest => max s.depth (depthItems rest)
  depthMembers : List (StringToken × Syntax) → Nat
    | [] => 0
    | (_, s) :: rest => max s.depth (depthMembers rest)

/-- The JSON tree that a syntax tree stands for. -/
def json? : Syntax → Option Json
  | .null => some .null
  | .bool b => some (.bool b)
  | .number n => n.number?.map .number
  | .string s => s.text?.map .string
  | .array items => (jsonItems items).map .array
  | .object members => (jsonMembers members).map fun ms => .object (Entries.ofList ms)
where
  jsonItems : List Syntax → Option (List Json)
    | [] => some []
    | s :: rest =>
      match s.json?, jsonItems rest with
      | some j, some js => some (j :: js)
      | _, _ => none
  jsonMembers : List (StringToken × Syntax) → Option (List (String × Json))
    | [] => some []
    | (name, s) :: rest =>
      match name.text?, s.json?, jsonMembers rest with
      | some n, some j, some js => some ((n, j) :: js)
      | _, _, _ => none

end Syntax

/-- Texts of ordinary documents may not nest this deep. -/
def nestingLimit : Nat := 128

/-- The tree of a text of any nesting. -/
def ofNestedText? (text : String) : Option Json :=
  (Syntax.ofText? text).bind Syntax.json?

/-- The tree of an ordinary document. -/
def ofText? (text : String) : Option Json :=
  (Syntax.ofText? text).bind fun s => if s.depth < nestingLimit then s.json? else none

end BlockScript.Json
