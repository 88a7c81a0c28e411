import BlockScript.Value
/-!
The variable scopes of a running script.

Scopes are frames in the order they were opened, each with a link to the frame it was opened
under. Frame 0 is the root. A name is looked up in the current frame and then in the root; frames
in between are never consulted.
-/

namespace BlockScript

structure Frame where
  bindings : Bindings
  parent : Option Nat

structure Scopes where
  frames : List Frame
  current : Nat

namespace Scopes

/-- Only a root, with these bindings. -/
def ofBindings (seed : Bindings) : Scopes :=
  { frames := [{ bindings := seed, parent := none }], current := 0 }

def empty : Scopes := ofBindings []

def parentOf (s : Scopes) (frame : Nat) : Option Nat :=
  s.frames[frame]?.bind Frame.parent

/-- The end of the parent links from a frame. A walk along them meets no more frames than there
are. -/
def rootFrom (s : Scopes) : (fuel : Nat) → (frame : Nat) → Nat
  | 0, frame => frame
  | fuel + 1, frame =>
    match s.parentOf frame with
    | none => frame
    | some parent => rootFrom s fuel parent

def root (s : Scopes) : Nat :=
  s.rootFrom s.frames.length s.current

def parent (s : Scopes) : Option Nat :=
  s.parentOf s.current

/-- The number of frames, the root included. -/
def depth (s : Scopes) : Nat :=
  s.frames.length

def bindingsAt (s : Scopes) (frame : Nat) : Bindings :=
  (s.frames[frame]?.map Frame.bindings).getD []

/-- Opens a frame under a given one and makes it current. -/
def openUnder (s : Scopes) (parent : Nat) : Scopes :=
  { frames := s.frames ++ [{ bindings := [], parent := some parent }], current := s.frames.length }

/-- Opens a frame under the current one. -/
def openScope (s : Scopes) : Scopes :=
  s.openUnder s.current

/-- Closes the current frame, unless it is the root, and goes back to a previous one. -/
def closeScope (s : Scopes) (previous : Nat) : Scopes :=
  { frames := if s.current = 0 then s.frames else s.frames.take s.current, current := previous }

/-- Drops every frame but the root, when an evaluation ended before it could close its scopes. -/
def unwind (s : Scopes) : Scopes :=
  { frames := s.frames.take 1, current := 0 }

/-- The value of a name, null when it is bound nowhere. -/
def get (s : Scopes) (name : String) : Value :=
  match Entries.value? name (s.bindingsAt s.current) with
  | some v => v
  | none => (Entries.value? name (s.bindingsAt s.root)).getD .null

def contains (s : Scopes) (name : String) : Bool :=
  Entries.binds name (s.bindingsAt s.current) || Entries.binds name (s.bindingsAt s.root)

def bindAt (s : Scopes) (frame : Nat) (name : String) (value : Value) : Scopes :=
  { s with
    frames := s.frames.modify frame fun f => { f with bindings := f.bindings.put name value } }

/-- Assigns where the name is bound, the current frame before the root; a name bound in neither
is created in the current frame. -/
def set (s : Scopes) (name : String) (value : Value) : Scopes :=
  if Entries.binds name (s.bindingsAt s.current) then s.bindAt s.current name value
  else if Entries.binds name (s.bindingsAt s.root) then s.bindAt s.root name value
  else s.bindAt s.current name value

/-- Assigns in the root. Null creates a missing name but never replaces a value. -/
def setGlobal (s : Scopes) (name : String) (value : Value) : Scopes :=
  if Entries.binds name (s.bindingsAt s.root) && value.isNull then s
  else s.bindAt s.root name value

/-- The bindings of the root of the current frame. -/
def rootBindings (s : Scopes) : Bindings :=
  s.bindingsAt s.root

/-- The bindings of the frame every script starts with. -/
def globals (s : Scopes) : Bindings :=
  s.bindingsAt 0

end Scopes

end BlockScript
