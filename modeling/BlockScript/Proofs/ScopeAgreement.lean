import Mathlib.Data.List.Forall2
import BlockScript.Proofs.Arena
import BlockScript.Proofs.EntryMaps
/-!
Scopes that agree on some names.

Where an assignment goes depends on which frames bind the name, so agreement is of presence as well
as of values, in every frame. An operation on one of the names gives the same on both sides and
leaves them in agreement; one on any other name leaves these names alone.
-/

namespace BlockScript

/-- Frames of one parent that hold the same under some names. -/
structure Frame.Alike (names : String → Prop) (f g : Frame) : Prop where
  parent : g.parent = f.parent
  values : ∀ name, names name → Entries.value? name g.bindings = Entries.value? name f.bindings

namespace Scopes

/-- Scopes of one shape whose frames hold the same under some names. -/
structure Alike (names : String → Prop) (s t : Scopes) : Prop where
  current : t.current = s.current
  frames : List.Forall₂ (Frame.Alike names) s.frames t.frames

variable {names : String → Prop} {s t : Scopes}

theorem alike_ofBindings {a b : Bindings}
    (agree : ∀ name, names name → Entries.value? name b = Entries.value? name a) :
    (ofBindings a).Alike names (ofBindings b) :=
  ⟨rfl, .cons ⟨rfl, agree⟩ .nil⟩

namespace Alike

theorem length_eq (h : s.Alike names t) : t.frames.length = s.frames.length :=
  h.frames.length_eq.symm

theorem frame (h : s.Alike names t) (i : Nat) :
    Option.Rel (Frame.Alike names) s.frames[i]? t.frames[i]? := by
  obtain ⟨-, frames⟩ := h
  generalize s.frames = fs at frames ⊢
  generalize t.frames = gs at frames ⊢
  induction frames generalizing i with
  | nil => exact .none
  | cons first _ ih =>
    cases i with
    | zero => exact .some first
    | succ i => exact ih i

theorem parentOf_eq (h : s.Alike names t) (i : Nat) : t.parentOf i = s.parentOf i := by
  have rel := h.frame i
  unfold parentOf
  generalize s.frames[i]? = f at rel ⊢
  generalize t.frames[i]? = g at rel ⊢
  cases rel with
  | none => rfl
  | some alike => exact alike.parent

theorem value?_eq (h : s.Alike names t) (i : Nat) {name : String} (mem : names name) :
    Entries.value? name (t.bindingsAt i) = Entries.value? name (s.bindingsAt i) := by
  have rel := h.frame i
  unfold bindingsAt
  generalize s.frames[i]? = f at rel ⊢
  generalize t.frames[i]? = g at rel ⊢
  cases rel with
  | none => rfl
  | some alike => exact alike.values name mem

theorem root_eq (h : s.Alike names t) : t.root = s.root := by
  have walk (fuel i : Nat) : t.rootFrom fuel i = s.rootFrom fuel i := by
    induction fuel generalizing i with
    | zero => rfl
    | succ fuel ih =>
      simp only [rootFrom, h.parentOf_eq]
      cases s.parentOf i with
      | none => rfl
      | some p => exact ih p
  rw [root, root, h.length_eq, h.current, walk]

theorem binds_eq (h : s.Alike names t) (i : Nat) {name : String} (mem : names name) :
    Entries.binds name (t.bindingsAt i) = Entries.binds name (s.bindingsAt i) := by
  rw [Entries.binds, Entries.binds, h.value?_eq i mem]

theorem get_eq (h : s.Alike names t) {name : String} (mem : names name) :
    t.get name = s.get name := by
  rw [Scopes.get, Scopes.get, h.current, h.root_eq, h.value?_eq _ mem, h.value?_eq _ mem]

theorem bindAt (h : s.Alike names t) (i : Nat) (name : String) (value : Value) :
    (s.bindAt i name value).Alike names (t.bindAt i name value) := by
  refine ⟨h.current, ?_⟩
  have put {f g : Frame} (alike : f.Alike names g) :
      Frame.Alike names { f with bindings := f.bindings.put name value }
        { g with bindings := g.bindings.put name value } := by
    refine ⟨alike.parent, ?_⟩
    intro other mem
    rw [Entries.value?_put, Entries.value?_put, alike.values other mem]
  obtain ⟨-, frames⟩ := h
  simp only [Scopes.bindAt]
  generalize s.frames = fs at frames ⊢
  generalize t.frames = gs at frames ⊢
  induction frames generalizing i with
  | nil => simp
  | cons first rest ih =>
    cases i with
    | zero => exact .cons (put first) rest
    | succ i => exact .cons first (ih i)

theorem set (h : s.Alike names t) {name : String} (mem : names name) (value : Value) :
    (s.set name value).Alike names (t.set name value) := by
  unfold Scopes.set
  rw [h.current, h.root_eq, h.binds_eq _ mem, h.binds_eq _ mem]
  split
  · exact h.bindAt _ name value
  · split
    · exact h.bindAt _ name value
    · exact h.bindAt _ name value

theorem setGlobal (h : s.Alike names t) {name : String} (mem : names name) (value : Value) :
    (s.setGlobal name value).Alike names (t.setGlobal name value) := by
  unfold Scopes.setGlobal
  rw [h.root_eq, h.binds_eq _ mem]
  split
  · exact h
  · exact h.bindAt _ name value

theorem openUnder (h : s.Alike names t) (p : Nat) :
    (s.openUnder p).Alike names (t.openUnder p) := by
  refine ⟨h.length_eq, ?_⟩
  exact List.rel_append h.frames (.cons ⟨rfl, fun _ _ => rfl⟩ .nil)

theorem closeScope (h : s.Alike names t) (previous : Nat) :
    (s.closeScope previous).Alike names (t.closeScope previous) := by
  refine ⟨rfl, ?_⟩
  simp only [Scopes.closeScope, h.current]
  split
  · exact h.frames
  · exact List.forall₂_take _ h.frames

theorem unwind (h : s.Alike names t) : s.unwind.Alike names t.unwind :=
  ⟨rfl, List.forall₂_take 1 h.frames⟩

end Alike

/-! What the operations leave alone of the frame that every script starts with. -/

theorem value?_bindAt_of_ne (s : Scopes) (frame i : Nat) {name other : String}
    (ne : other ≠ name) (value : Value) :
    Entries.value? other ((s.bindAt frame name value).bindingsAt i) =
      Entries.value? other (s.bindingsAt i) := by
  by_cases eq : i = frame
  · subst eq
    by_cases live : i < s.depth
    · rw [s.bindingsAt_bindAt_self i name value live, Entries.value?_put_of_ne ne]
    · rw [bindingsAt_eq_nil_of_le _ i (by simpa using live),
        bindingsAt_eq_nil_of_le _ i (by simpa using live)]
  · rw [s.bindingsAt_bindAt_of_ne frame i name value eq]

theorem value?_set_of_ne (s : Scopes) {name other : String} (ne : other ≠ name) (value : Value) :
    Entries.value? other (s.set name value).globals = Entries.value? other s.globals := by
  unfold set globals
  split
  · exact s.value?_bindAt_of_ne _ 0 ne value
  · split
    · exact s.value?_bindAt_of_ne _ 0 ne value
    · exact s.value?_bindAt_of_ne _ 0 ne value

theorem value?_setGlobal_of_ne (s : Scopes) {name other : String} (ne : other ≠ name)
    (value : Value) :
    Entries.value? other (s.setGlobal name value).globals = Entries.value? other s.globals := by
  unfold setGlobal globals
  split
  · rfl
  · exact s.value?_bindAt_of_ne _ 0 ne value

theorem globals_openUnder (s : Scopes) (p : Nat) : (s.openUnder p).globals = s.globals := by
  obtain ⟨frames, current⟩ := s
  cases frames <;> rfl

theorem globals_closeScope (s : Scopes) (previous : Nat) :
    (s.closeScope previous).globals = s.globals := by
  unfold closeScope globals bindingsAt
  split
  · rfl
  · next inner => simp [Nat.pos_of_ne_zero inner]

theorem globals_unwind (s : Scopes) : s.unwind.globals = s.globals := by
  simp [unwind, globals, bindingsAt]

end Scopes

end BlockScript
