import Mathlib.Logic.Function.Basic
import BlockScript.Proofs.Arena
/-!
Scopes as one map of globals and a stack of local maps.

A name means what the innermost map says and, failing that, what the globals say; the maps in
between are shut away until the scopes above them are closed. The arena of frames shows exactly
this, whatever frames its scopes are opened under.
-/

namespace BlockScript

/-- The globals and the maps of the open scopes, the innermost first. -/
structure TwoTier where
  globals : String → Option Value
  locals : List (String → Option Value)

namespace TwoTier

/-- The innermost map: the globals themselves when no scope is open. -/
def top (m : TwoTier) : String → Option Value :=
  m.locals.headD m.globals

def depth (m : TwoTier) : Nat :=
  m.locals.length + 1

def get (m : TwoTier) (name : String) : Value :=
  ((m.top name).or (m.globals name)).getD .null

def contains (m : TwoTier) (name : String) : Bool :=
  (m.top name).isSome || (m.globals name).isSome

def openScope (m : TwoTier) : TwoTier :=
  { m with locals := (fun _ => none) :: m.locals }

def closeScope (m : TwoTier) : TwoTier :=
  { m with locals := m.locals.tail }

def unwind (m : TwoTier) : TwoTier :=
  { m with locals := [] }

def bindGlobal (m : TwoTier) (name : String) (value : Value) : TwoTier :=
  { m with globals := Function.update m.globals name (some value) }

def bindTop (m : TwoTier) (name : String) (value : Value) : TwoTier :=
  match m.locals with
  | [] => m.bindGlobal name value
  | map :: rest => { m with locals := Function.update map name (some value) :: rest }

/-- Assigns in the innermost map if the name is bound there, else in the globals if it is bound
there, else creates it in the innermost map. -/
def set (m : TwoTier) (name : String) (value : Value) : TwoTier :=
  if (m.top name).isSome then m.bindTop name value
  else if (m.globals name).isSome then m.bindGlobal name value
  else m.bindTop name value

/-- Assigns in the globals; null never replaces what is there. -/
def setGlobal (m : TwoTier) (name : String) (value : Value) : TwoTier :=
  if (m.globals name).isSome && value.isNull then m else m.bindGlobal name value

end TwoTier

/-- What can be done to the scopes of a script. -/
inductive ScopeOperation where
  | openScope
  | openUnder (parent : Nat)
  /-- Closes the innermost scope and goes back to where it was opened. -/
  | closeScope
  | unwind
  | set (name : String) (value : Value)
  | setGlobal (name : String) (value : Value)

namespace ScopeOperation

/-- The operation without the frame a scope is opened under. -/
def plain : ScopeOperation → ScopeOperation
  | .openUnder _ => .openScope
  | op => op

end ScopeOperation

/-- Scopes in use. -/
structure ScopeSession where
  scopes : Scopes
  /-- The frames to go back to from the open scopes, the innermost first. -/
  pending : List Nat

namespace ScopeSession

/-- New scopes, with bindings for the root or without. -/
def start : Option Bindings → ScopeSession
  | none => ⟨.empty, []⟩
  | some seed => ⟨.ofBindings seed, []⟩

/-- A scope may be opened under any frame there is, and only an open scope can be closed. -/
def apply (t : ScopeSession) : ScopeOperation → Option ScopeSession
  | .openScope => some ⟨t.scopes.openScope, t.scopes.current :: t.pending⟩
  | .openUnder parent =>
    if parent < t.scopes.depth then
      some ⟨t.scopes.openUnder parent, t.scopes.current :: t.pending⟩
    else none
  | .closeScope =>
    match t.pending with
    | [] => none
    | previous :: rest => some ⟨t.scopes.closeScope previous, rest⟩
  | .unwind => some ⟨t.scopes.unwind, []⟩
  | .set name value => some ⟨t.scopes.set name value, t.pending⟩
  | .setGlobal name value => some ⟨t.scopes.setGlobal name value, t.pending⟩

def run (t : ScopeSession) : List ScopeOperation → Option ScopeSession
  | [] => some t
  | op :: ops => (t.apply op).bind fun t => t.run ops

end ScopeSession

namespace TwoTier

def start (seed : Option Bindings) : TwoTier :=
  { globals := fun name => Entries.value? name (seed.getD []), locals := [] }

def apply (m : TwoTier) : ScopeOperation → TwoTier
  | .openScope => m.openScope
  | .openUnder _ => m.openScope
  | .closeScope => m.closeScope
  | .unwind => m.unwind
  | .set name value => m.set name value
  | .setGlobal name value => m.setGlobal name value

def run (m : TwoTier) (ops : List ScopeOperation) : TwoTier :=
  ops.foldl apply m

/-- The model knows nothing of the frames that scopes are opened under. -/
theorem run_plain (m : TwoTier) (ops : List ScopeOperation) :
    m.run (ops.map ScopeOperation.plain) = m.run ops := by
  induction ops generalizing m with
  | nil => rfl
  | cons op ops ih =>
    have eq : m.apply op.plain = m.apply op := by cases op <;> rfl
    simpa [run, eq] using ih (m.apply op)

end TwoTier

namespace Scopes

/-- The bindings of a frame as a map. -/
def mapAt (s : Scopes) (i : Nat) : String → Option Value :=
  fun name => Entries.value? name (s.bindingsAt i)

/-- The maps of the frames `n` to 1. -/
def mapsDown (s : Scopes) (n : Nat) : List (String → Option Value) :=
  (List.range n).reverse.map fun i => s.mapAt (i + 1)

/-- The arena without its links. -/
def view (s : Scopes) : TwoTier :=
  { globals := s.mapAt 0, locals := s.mapsDown s.current }

theorem mapAt_congr {s t : Scopes} {i : Nat} (same : t.bindingsAt i = s.bindingsAt i) :
    t.mapAt i = s.mapAt i := by
  unfold mapAt
  rw [same]

theorem mapsDown_zero (s : Scopes) : s.mapsDown 0 = [] := rfl

theorem mapsDown_succ (s : Scopes) (n : Nat) :
    s.mapsDown (n + 1) = s.mapAt (n + 1) :: s.mapsDown n := by
  simp [mapsDown, List.range_succ]

theorem mapsDown_congr {s t : Scopes} (n : Nat)
    (same : ∀ i, 0 < i → i ≤ n → t.bindingsAt i = s.bindingsAt i) :
    t.mapsDown n = s.mapsDown n := by
  apply List.map_congr_left
  intro i hi
  have lt : i < n := by simpa using hi
  exact mapAt_congr (same (i + 1) (by omega) (by omega))

theorem mapAt_bindAt_self (s : Scopes) (i : Nat) (name : String) (value : Value)
    (live : i < s.depth) :
    (s.bindAt i name value).mapAt i = Function.update (s.mapAt i) name (some value) := by
  funext other
  simp only [mapAt, s.bindingsAt_bindAt_self i name value live]
  by_cases eq : other = name
  · subst eq
    rw [Entries.value?_put_self, Function.update_self]
  · rw [Entries.value?_put_of_ne eq, Function.update_of_ne eq]
    rfl

theorem view_top (s : Scopes) : s.view.top = s.mapAt s.current := by
  cases h : s.current with
  | zero => simp [view, TwoTier.top, h, mapsDown_zero]
  | succ n => simp [view, TwoTier.top, h, mapsDown_succ]

/-! Each operation on the arena is the operation of the same name on its view. -/

theorem WellFormed.view_openUnder {s : Scopes} (h : s.WellFormed) (p : Nat) :
    (s.openUnder p).view = s.view.openScope := by
  have pos := h.depth_pos
  have root : (s.openUnder p).mapAt 0 = s.mapAt 0 :=
    mapAt_congr (bindingsAt_openUnder _ _ _ pos)
  have new : (s.openUnder p).mapAt s.depth = fun _ => none := by
    funext name
    simp [mapAt, bindingsAt, Scopes.openUnder, depth]
  have old : (s.openUnder p).mapsDown s.current = s.mapsDown s.current := by
    apply mapsDown_congr
    intro i _ le
    exact bindingsAt_openUnder _ _ _ (by have := h.current_lt; omega)
  simp only [view, TwoTier.openScope, current_openUnder, root]
  rw [← h.current_last, mapsDown_succ, h.current_last, new, old]

theorem view_closeScope {s : Scopes} {previous : Nat} (before : previous + 1 = s.current) :
    (s.closeScope previous).view = s.view.closeScope := by
  have root : (s.closeScope previous).mapAt 0 = s.mapAt 0 :=
    mapAt_congr (bindingsAt_closeScope _ _ _ (by omega))
  have rest : (s.closeScope previous).mapsDown previous = s.mapsDown previous := by
    apply mapsDown_congr
    intro i _ le
    exact bindingsAt_closeScope _ _ _ (by omega)
  have cur : (s.closeScope previous).current = previous := rfl
  simp only [view, TwoTier.closeScope, root, cur, rest]
  rw [← before, mapsDown_succ, List.tail_cons]

theorem WellFormed.view_unwind {s : Scopes} (h : s.WellFormed) : s.unwind.view = s.view.unwind := by
  rw [h.unwind_eq]
  rfl

theorem WellFormed.view_bindAt_root {s : Scopes} (h : s.WellFormed) (name : String)
    (value : Value) : (s.bindAt 0 name value).view = s.view.bindGlobal name value := by
  have rest : (s.bindAt 0 name value).mapsDown s.current = s.mapsDown s.current := by
    apply mapsDown_congr
    intro i pos _
    exact bindingsAt_bindAt_of_ne _ _ _ _ _ (by omega)
  simp only [view, TwoTier.bindGlobal, current_bindAt, rest,
    mapAt_bindAt_self s 0 name value h.depth_pos]

theorem WellFormed.view_bindAt_current {s : Scopes} (h : s.WellFormed) (name : String)
    (value : Value) : (s.bindAt s.current name value).view = s.view.bindTop name value := by
  cases hc : s.current with
  | zero =>
    have none : s.view.locals = [] := by simp [view, hc, mapsDown_zero]
    simp only [TwoTier.bindTop, none]
    exact h.view_bindAt_root name value
  | succ n =>
    have some : s.view.locals = s.mapAt (n + 1) :: s.mapsDown n := by
      simp [view, hc, mapsDown_succ]
    have live : n + 1 < s.depth := by
      have := h.current_lt
      omega
    have root : (s.bindAt (n + 1) name value).mapAt 0 = s.mapAt 0 :=
      mapAt_congr (bindingsAt_bindAt_of_ne _ _ _ _ _ (by omega))
    have rest : (s.bindAt (n + 1) name value).mapsDown n = s.mapsDown n := by
      apply mapsDown_congr
      intro i _ le
      exact bindingsAt_bindAt_of_ne _ _ _ _ _ (by omega)
    simp only [TwoTier.bindTop, some]
    simp only [view, current_bindAt, hc, mapsDown_succ, root, rest,
      mapAt_bindAt_self s (n + 1) name value live]

theorem WellFormed.view_set {s : Scopes} (h : s.WellFormed) (name : String) (value : Value) :
    (s.set name value).view = s.view.set name value := by
  have top : (s.view.top name).isSome = Entries.binds name (s.bindingsAt s.current) := by
    rw [view_top]
    rfl
  have global : (s.view.globals name).isSome = Entries.binds name (s.bindingsAt 0) := rfl
  simp only [Scopes.set, TwoTier.set, h.root_eq, top, global]
  split
  · exact h.view_bindAt_current name value
  · split
    · exact h.view_bindAt_root name value
    · exact h.view_bindAt_current name value

theorem WellFormed.view_setGlobal {s : Scopes} (h : s.WellFormed) (name : String)
    (value : Value) : (s.setGlobal name value).view = s.view.setGlobal name value := by
  have global : (s.view.globals name).isSome = Entries.binds name (s.bindingsAt 0) := rfl
  simp only [Scopes.setGlobal, TwoTier.setGlobal, h.root_eq, global]
  split
  · rfl
  · exact h.view_bindAt_root name value

/-- Everything that can be seen of the scopes is as the model says. -/
structure Shows (s : Scopes) (m : TwoTier) : Prop where
  get : ∀ name, s.get name = m.get name
  contains : ∀ name, s.contains name = m.contains name
  rootBindings : ∀ name, Entries.value? name s.rootBindings = m.globals name
  globals : ∀ name, Entries.value? name s.globals = m.globals name
  depth : s.depth = m.depth

theorem WellFormed.shows_view {s : Scopes} (h : s.WellFormed) : s.Shows s.view where
  get name := by
    simp only [Scopes.get, TwoTier.get, view_top, h.root_eq, mapAt]
    cases Entries.value? name (s.bindingsAt s.current) <;> rfl
  contains name := by
    simp only [Scopes.contains, TwoTier.contains, view_top, h.root_eq]
    rfl
  rootBindings name := by
    simp only [Scopes.rootBindings, h.root_eq]
    rfl
  globals _ := rfl
  depth := by
    simp only [TwoTier.depth, view, mapsDown, List.length_map, List.length_reverse,
      List.length_range]
    exact h.current_last.symm

end Scopes

namespace TwoTier

/-- Models that differ only in what lies between the innermost map and the globals. -/
structure SameEnds (m n : TwoTier) : Prop where
  nested : m.locals = [] ↔ n.locals = []
  globals : m.globals = n.globals
  top : m.top = n.top

theorem SameEnds.bindGlobal {m n : TwoTier} (h : SameEnds m n) (name : String) (value : Value) :
    SameEnds (m.bindGlobal name value) (n.bindGlobal name value) := by
  obtain ⟨nested, globals, top⟩ := h
  refine ⟨nested, by simp only [TwoTier.bindGlobal, globals], ?_⟩
  cases hm : m.locals <;> cases hn : n.locals <;>
    simp_all [TwoTier.top, TwoTier.bindGlobal]

theorem SameEnds.bindTop {m n : TwoTier} (h : SameEnds m n) (name : String) (value : Value) :
    SameEnds (m.bindTop name value) (n.bindTop name value) := by
  cases hm : m.locals with
  | nil =>
    have hn : n.locals = [] := h.nested.mp hm
    simp only [TwoTier.bindTop, hm, hn]
    exact h.bindGlobal name value
  | cons map rest =>
    cases hn : n.locals with
    | nil => simp [h.nested.mpr hn] at hm
    | cons map' rest' =>
      have top : map = map' := by simpa [TwoTier.top, hm, hn] using h.top
      simp only [TwoTier.bindTop, hm, hn]
      exact ⟨by simp, h.globals, by simp [TwoTier.top, top]⟩

theorem SameEnds.get {m n : TwoTier} (h : SameEnds m n) (name : String) :
    m.get name = n.get name := by
  simp only [TwoTier.get, h.top, h.globals]

theorem SameEnds.contains {m n : TwoTier} (h : SameEnds m n) (name : String) :
    m.contains name = n.contains name := by
  simp only [TwoTier.contains, h.top, h.globals]

theorem SameEnds.set {m n : TwoTier} (h : SameEnds m n) (name : String) (value : Value) :
    SameEnds (m.set name value) (n.set name value) := by
  simp only [TwoTier.set, h.top, h.globals]
  split
  · exact h.bindTop name value
  · split
    · exact h.bindGlobal name value
    · exact h.bindTop name value

theorem SameEnds.setGlobal {m n : TwoTier} (h : SameEnds m n) (name : String) (value : Value) :
    SameEnds (m.setGlobal name value) (n.setGlobal name value) := by
  simp only [TwoTier.setGlobal, h.globals]
  split
  · exact h
  · exact h.bindGlobal name value

end TwoTier

namespace ScopeSession

/-- The arena is well formed, and the frames to go back to are those before the current one. -/
structure Sound (t : ScopeSession) : Prop where
  wellFormed : t.scopes.WellFormed
  pending : t.pending = (List.range t.scopes.current).reverse

theorem sound_start (seed : Option Bindings) :
    (start seed).Sound ∧ (start seed).scopes.view = TwoTier.start seed := by
  cases seed with
  | none => exact ⟨⟨Scopes.wellFormed_ofBindings [], rfl⟩, rfl⟩
  | some seed => exact ⟨⟨Scopes.wellFormed_ofBindings seed, rfl⟩, rfl⟩

theorem Sound.opened {t : ScopeSession} (h : t.Sound) {parent : Nat}
    (live : parent < t.scopes.depth) :
    Sound ⟨t.scopes.openUnder parent, t.scopes.current :: t.pending⟩ := by
  refine ⟨h.wellFormed.openUnder live, ?_⟩
  rw [Scopes.current_openUnder, ← h.wellFormed.current_last, List.range_succ,
    List.reverse_append, h.pending]
  rfl

theorem Sound.closed {t : ScopeSession} (h : t.Sound) {previous : Nat} {rest : List Nat}
    (hp : t.pending = previous :: rest) :
    previous + 1 = t.scopes.current ∧ Sound ⟨t.scopes.closeScope previous, rest⟩ := by
  have eq := h.pending
  rw [hp] at eq
  cases hc : t.scopes.current with
  | zero => simp [hc] at eq
  | succ n =>
    rw [hc, List.range_succ, List.reverse_append, List.reverse_singleton, List.singleton_append,
      List.cons.injEq] at eq
    obtain ⟨rfl, rfl⟩ := eq
    exact ⟨rfl, h.wellFormed.closeScope hc.symm, rfl⟩

theorem Sound.kept {t : ScopeSession} (h : t.Sound) {s : Scopes} (k : t.scopes.Kept s) :
    Sound ⟨s, t.pending⟩ :=
  ⟨k.wellFormed h.wellFormed, by rw [h.pending, k.current]⟩

/-- One operation keeps a session sound and does to the view what the model does. -/
theorem apply_sound {t t' : ScopeSession} {op : ScopeOperation} (h : t.Sound)
    (step : t.apply op = some t') : t'.Sound ∧ t'.scopes.view = t.scopes.view.apply op := by
  cases op with
  | openScope =>
    cases step
    exact ⟨h.opened h.wellFormed.current_lt, h.wellFormed.view_openUnder _⟩
  | openUnder parent =>
    simp only [apply] at step
    split at step
    · next live =>
      cases step
      exact ⟨h.opened live, h.wellFormed.view_openUnder parent⟩
    · cases step
  | closeScope =>
    simp only [apply] at step
    split at step
    · cases step
    · next previous rest hp =>
      cases step
      obtain ⟨before, sound⟩ := h.closed hp
      exact ⟨sound, Scopes.view_closeScope before⟩
  | unwind =>
    -- All pending scopes are forgotten, so nothing is left to be sound but the root.
    cases step
    refine ⟨⟨?_, rfl⟩, h.wellFormed.view_unwind⟩
    rw [h.wellFormed.unwind_eq]
    exact Scopes.wellFormed_ofBindings _
  | set name value =>
    cases step
    exact ⟨h.kept (h.wellFormed.kept_set name value), h.wellFormed.view_set name value⟩
  | setGlobal name value =>
    cases step
    exact ⟨h.kept (h.wellFormed.kept_setGlobal name value), h.wellFormed.view_setGlobal name value⟩

theorem run_sound {t t' : ScopeSession} {ops : List ScopeOperation} (h : t.Sound)
    (steps : t.run ops = some t') : t'.Sound ∧ t'.scopes.view = t.scopes.view.run ops := by
  induction ops generalizing t with
  | nil =>
    cases steps
    exact ⟨h, rfl⟩
  | cons op ops ih =>
    obtain ⟨u, step, rest⟩ := Option.bind_eq_some_iff.mp steps
    obtain ⟨sound, view⟩ := apply_sound h step
    obtain ⟨sound', view'⟩ := ih sound rest
    exact ⟨sound', by rw [view', view]; rfl⟩

/-- No operation writes a frame between the root and the current one. -/
theorem apply_between {t t' : ScopeSession} {op : ScopeOperation} (h : t.Sound)
    (step : t.apply op = some t') {i : Nat} (above : 0 < i) (below : i < t.scopes.current)
    (live : i < t'.scopes.depth) : t'.scopes.bindingsAt i = t.scopes.bindingsAt i := by
  have lt : i < t.scopes.depth := Nat.lt_trans below h.wellFormed.current_lt
  cases op with
  | openScope =>
    cases step
    exact Scopes.bindingsAt_openUnder _ _ _ lt
  | openUnder parent =>
    simp only [apply] at step
    split at step
    · cases step
      exact Scopes.bindingsAt_openUnder _ _ _ lt
    · cases step
  | closeScope =>
    simp only [apply] at step
    split at step
    · cases step
    · cases step
      exact Scopes.bindingsAt_closeScope _ _ _ below
  | unwind =>
    cases step
    rw [h.wellFormed.unwind_eq, Scopes.depth_ofBindings] at live
    omega
  | set name value =>
    cases step
    exact (h.wellFormed.kept_set name value).bindingsAt i (by omega) (by omega)
  | setGlobal name value =>
    cases step
    exact (h.wellFormed.kept_setGlobal name value).bindingsAt i (by omega) (by omega)

/-- After any operations the links of the arena lead to frame 0, the last frame is current, and all
that can be seen is what the model shows. No operation writes a frame in between, what lies in
between never matters, and neither do the frames that scopes were opened under. -/
theorem arena_shows_two_tier (seed : Option Bindings) (ops : List ScopeOperation)
    (t : ScopeSession) (steps : (start seed).run ops = some t) :
    (∀ i, i < t.scopes.depth → (t.scopes.parentOf i = none ↔ i = 0)) ∧
    (∀ i p, i < t.scopes.depth → t.scopes.parentOf i = some p → p < i) ∧
    t.scopes.current + 1 = t.scopes.depth ∧
    t.scopes.Walk t.scopes.current 0 ∧ t.scopes.root = 0 ∧
    t.scopes.Shows ((TwoTier.start seed).run ops) ∧
    (∀ op t' i, t.apply op = some t' → 0 < i → i < t.scopes.current → i < t'.scopes.depth →
      t'.scopes.bindingsAt i = t.scopes.bindingsAt i) ∧
    (∀ n, ((TwoTier.start seed).run ops).SameEnds n → ∀ name value,
      t.scopes.get name = n.get name ∧ t.scopes.contains name = n.contains name ∧
      ((t.scopes.set name value).view).SameEnds (n.set name value) ∧
      ((t.scopes.setGlobal name value).view).SameEnds (n.setGlobal name value)) ∧
    (∀ ops' t', ops'.map ScopeOperation.plain = ops.map ScopeOperation.plain →
      (start seed).run ops' = some t' → t'.scopes.Shows ((TwoTier.start seed).run ops)) := by
  obtain ⟨sound, view⟩ := sound_start seed
  obtain ⟨sound', view'⟩ := run_sound sound steps
  have wf := sound'.wellFormed
  rw [view] at view'
  have shows := view' ▸ wf.shows_view
  refine ⟨fun i live => wf.parent_eq_none_iff live, fun i p live => wf.parent_lt live,
    wf.current_last, wf.walk _ wf.current_lt, wf.root_eq, shows,
    fun op t' i step above below live => apply_between sound' step above below live, ?_, ?_⟩
  · intro n ends name value
    refine ⟨(shows.get name).trans (ends.get name),
      (shows.contains name).trans (ends.contains name), ?_, ?_⟩
    · rw [wf.view_set, view']
      exact ends.set name value
    · rw [wf.view_setGlobal, view']
      exact ends.setGlobal name value
  · intro ops' t' same steps'
    obtain ⟨sound'', view''⟩ := run_sound sound steps'
    rw [view, ← TwoTier.run_plain, same, TwoTier.run_plain] at view''
    exact view'' ▸ sound''.wellFormed.shows_view

/-- A global created over the head of a local of the same name leaves the local as it was. -/
theorem local_survives_global :
    let ops := [.openScope, .set "x" (.bool true), .openUnder 0, .setGlobal "x" (.bool false),
      .closeScope]
    ∃ t, (start none).run ops = some t ∧ t.scopes.get "x" = .bool true ∧
      Entries.value? "x" t.scopes.globals = some (.bool false) ∧ t.scopes.depth = 2 := by
  intro ops
  refine ⟨_, rfl, ?_⟩
  have shows := (arena_shows_two_tier none ops _ rfl).2.2.2.2.2.1
  exact ⟨shows.get "x", shows.globals "x", shows.depth⟩

end ScopeSession

end BlockScript
