/-!
The nesting of brackets in a text, as far as it can be seen without reading the text as JSON.
-/

namespace BlockScript.Nesting

/-- Where a scan stands: the brackets open, the most that were, and whether it is inside a string
and just after a backslash there. -/
structure Scan where
  depth : Nat := 0
  deepest : Nat := 0
  inString : Bool := false
  escaped : Bool := false
  deriving DecidableEq, Repr

namespace Scan

/-- Brackets inside strings do not count, and a closing one too many is ignored. -/
def step (s : Scan) (c : Char) : Scan :=
  if s.inString then
    if s.escaped then { s with escaped := false }
    else if c = '\\' then { s with escaped := true }
    else if c = '"' then { s with inString := false }
    else s
  else if c = '"' then { s with inString := true }
  else if c = '\x7b' ∨ c = '[' then
    { s with depth := s.depth + 1, deepest := max s.deepest (s.depth + 1) }
  else if c = '\x7d' ∨ c = ']' then { s with depth := s.depth - 1 }
  else s

end Scan

/-- The most brackets open at once in a text. -/
def depth (text : List Char) : Nat :=
  (text.foldl Scan.step {}).deepest

/-- Scripts may not nest deeper than this. -/
def limit : Nat := 1024

end BlockScript.Nesting
