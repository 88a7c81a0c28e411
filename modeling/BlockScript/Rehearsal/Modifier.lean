import BlockScript.Log.Modifier
/-!
Log modifiers for rehearsals: one that counts, and one that fails halfway.
-/

namespace BlockScript.Rehearsal

open Log

/-- Adds to the annotation `count`, and notes whether this was an attachment or a replay. -/
def countModifier (amount : Nat) : Modifier where
  kind := "count"
  state := .object [("by", .number (.nat amount))]
  apply initial r :=
    let before := ((r.annotation? "count").bind Json.asNat?).getD 0
    (.ok (), (r.annotate "count" (.number (.nat (before + amount)))).annotate "initial"
      (.bool initial))

/-- Annotates the record, and then fails. -/
def brokenModifier : Modifier where
  kind := "broken"
  state := .object []
  apply _ r := (.error (.unknownKind "broken"), r.annotate "broken" (.bool true))

open Json in
def readCount (state : Json) : Option Modifier := do
  match ← Node.fields? ["by"] state with
  | [amount] => pure (countModifier (← Node.required Node.nat? amount))
  | _ => none

open Json in
def readBroken (state : Json) : Option Modifier :=
  (Node.fields? [] state).map fun _ => brokenModifier

/-- The standard modifiers and the two for rehearsals. -/
def fullCatalog : Catalog :=
  (Catalog.standard.put "count" readCount).put "broken" readBroken

end BlockScript.Rehearsal
