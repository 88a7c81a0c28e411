/-!
Places in a document.
-/

namespace BlockScript

/-- One step from a block towards a place inside it. -/
inductive Step where
  /-- To a slot in one of the groups of connections. -/
  | slot (group name : String)
  | next
  | mutation (index : Nat)
  deriving DecidableEq, Repr

namespace Step

def text : Step → String
  | .slot group name => s!".{group}.{name}"
  | .next => ".next"
  | .mutation index => s!".mutations[{index}]"

end Step

/-- A place: where the root block stands, and the steps from there. -/
structure Path where
  base : String
  steps : List Step := []
  deriving DecidableEq, Repr

namespace Path

def text (p : Path) : String :=
  p.steps.foldl (fun t s => t ++ s.text) p.base

def down (p : Path) (s : Step) : Path :=
  { p with steps := p.steps ++ [s] }

end Path

end BlockScript
