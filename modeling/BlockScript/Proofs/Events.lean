import BlockScript.Proofs.ScopeAgreement
import BlockScript.Proofs.ScopeDiscipline
/-!
What happens in a run, one thing after the other.

A history lists what a program tells its collaborators, the children they report, and what the
program assigns and attaches. Whatever a program comes to, the bindings of the root, the log record
and the state of the children are those it started with and the marks of its history on them.
-/

namespace BlockScript

variable {β ε α γ : Type}

namespace Scopes

/-- The frame in which an assignment binds a name. -/
def target (s : Scopes) (name : String) : Nat :=
  if Entries.binds name (s.bindingsAt s.current) then s.current
  else if Entries.binds name (s.bindingsAt s.root) then s.root
  else s.current

theorem set_eq_target (s : Scopes) (name : String) (value : Value) :
    s.set name value = s.bindAt (s.target name) name value := by
  unfold set target
  split
  · rfl
  · split <;> rfl

theorem WellFormed.globals_bindAt {s : Scopes} (h : s.WellFormed) (frame : Nat) (name : String)
    (value : Value) : (s.bindAt frame name value).globals =
      if frame = 0 then s.globals.put name value else s.globals := by
  by_cases root : frame = 0
  · subst root
    exact s.bindingsAt_bindAt_self 0 name value h.depth_pos
  · rw [if_neg root]
    exact s.bindingsAt_bindAt_of_ne frame 0 name value (Ne.symm root)

end Scopes

inductive Event (β : Type) where
  /-- Somebody was told or asked something. -/
  | told (notice : Notice β)
  /-- The site reported a child it was asked to start. -/
  | joined (child : Child)
  | assigned (frame : Nat) (name : String) (value : Value)
  | assignedGlobal (name : String) (value : Value)
  | attached (modifier : Log.Modifier)

/-- What a run has to show for itself at some moment. -/
structure Footprint where
  globals : Bindings
  log : LogRecord
  settled : Bool

def RunState.footprint (s : RunState) : Footprint :=
  ⟨s.scopes.globals, s.log, s.settled⟩

namespace Event

def notice? : Event β → Option (Notice β)
  | .told notice => some notice
  | _ => none

/-- The mark an event leaves. A binding outside the root leaves none. -/
def mark (f : Footprint) : Event β → Footprint
  | .told _ => f
  | .joined child => { f with settled := f.settled && child.outcome.isTerminal }
  | .assigned frame name value =>
    if frame = 0 then { f with globals := f.globals.put name value } else f
  | .assignedGlobal name value =>
    if Entries.binds name f.globals && value.isNull then f
    else { f with globals := f.globals.put name value }
  | .attached modifier => { f with log := (Log.attach modifier f.log).2 }

theorem foldl_mark_told (notices : List (Notice β)) (f : Footprint) :
    (notices.map told).foldl mark f = f := by
  induction notices with
  | nil => rfl
  | cons n rest ih => exact ih

end Event

namespace Environment

variable (env : Environment β ε)

/-- What an action assigns or attaches, and the child it was given. -/
def effects (a : Action β) (s : RunState) (w : World ε) : List (Event β) :=
  match a with
  | .assign name value => [.assigned (s.scopes.target name) name value]
  | .assignGlobal name value => [.assignedGlobal name value]
  | .attach modifier => [.attached modifier]
  | .spawn name presets =>
    match (env.race (env.site.spawn name presets) w).1 with
    | .result (.ok child) => [.joined child]
    | _ => []
  | _ => []

def events (a : Action β) (s : RunState) (w : World ε) : List (Event β) :=
  (env.notices a s w.peers).map .told ++ env.effects a s w

/-- What happens until a program ends. -/
def history : Program β α → RunState → World ε → List (Event β)
  | .done _, _, _ => []
  | .act a resume, s, w =>
    env.events a s w ++
      match env.perform a s w with
      | (.result reply, s, w) => history (resume reply) s w
      | _ => []

theorem history_perform (a : Action β) (s : RunState) (w : World ε) :
    env.history (Program.perform a) s w = env.events a s w := by
  simp only [Program.perform, history]
  split <;> simp

theorem history_bind (p : Program β α) (f : α → Program β γ) (s : RunState) (w : World ε) :
    env.history (p >>= f) s w =
      env.history p s w ++
        match env.run p s w with
        | (.result (.ok a), t, v) => env.history (f a) t v
        | _ => [] := by
  change env.history (p.bind f) s w = _
  induction p generalizing s w with
  | done r => cases r <;> simp [Program.bind, history, run]
  | act a resume ih =>
    simp only [Program.bind, history, run, List.append_assoc]
    obtain ⟨ending, t, v⟩ := env.perform a s w
    cases ending with
    | result reply => exact congrArg (env.events a s w ++ ·) (ih reply t v)
    | cut | stuck | crash => simp

theorem history_closing (previous : Nat) (p : Program β α) (s : RunState) (w : World ε) :
    env.history (p.closing previous) s w = env.history p s w := by
  induction p generalizing s w with
  | done r => simp [Program.closing, history, perform, events, notices, effects]
  | act a resume ih =>
    simp only [Program.closing, history]
    obtain ⟨ending, t, v⟩ := env.perform a s w
    cases ending with
    | result reply => exact congrArg (env.events a s w ++ ·) (ih reply t v)
    | cut | stuck | crash => rfl

theorem history_inScope (p : Program β α) (s : RunState) (w : World ε) :
    env.history p.inScope s w = env.history p { s with scopes := s.scopes.openScope } w := by
  rw [Program.inScope, history_bind, history_perform, run_perform]
  simp only [perform, events, effects, notices, ite_self, List.map_nil, List.nil_append]
  exact env.history_closing s.scopes.current p { s with scopes := s.scopes.openScope } w

/-- The collaborators are told what the history says they are told. -/
theorem news_eq_history (p : Program β α) (s : RunState) (w : World ε) :
    env.news p s w = (env.history p s w).filterMap Event.notice? := by
  have effects (a : Action β) (s : RunState) (w : World ε) :
      (env.effects a s w).filterMap Event.notice? = [] := by
    unfold Environment.effects
    split <;> try rfl
    split <;> rfl
  have told (notices : List (Notice β)) :
      (notices.map Event.told).filterMap Event.notice? = notices := by
    simp [List.filterMap_map, Function.comp_def, Event.notice?]
  induction p generalizing s w with
  | done r => rfl
  | act a resume ih =>
    simp only [news, history, events, List.filterMap_append, effects, told, List.append_nil]
    obtain ⟨ending, t, v⟩ := env.perform a s w
    cases ending with
    | result reply => exact congrArg (env.notices a s w.peers ++ ·) (ih reply t v)
    | cut | stuck | crash => rfl

/-- An action leaves the marks of its events. -/
theorem perform_footprint {a : Action β} (plain : a.Plain) {s : RunState}
    (wf : s.scopes.WellFormed) (w : World ε) :
    (env.perform a s w).2.1.footprint = (env.events a s w).foldl Event.mark s.footprint := by
  rw [events, List.foldl_append, Event.foldl_mark_told]
  cases a with
  | assign name value =>
    simp only [perform, effects, RunState.footprint, Scopes.set_eq_target, wf.globals_bindAt,
      List.foldl_cons, List.foldl_nil, Event.mark]
    split <;> rfl
  | assignGlobal name value =>
    have root : s.scopes.bindingsAt s.scopes.root = s.scopes.globals := by
      rw [wf.root_eq]
      rfl
    simp only [perform, effects, RunState.footprint, Scopes.setGlobal, root, List.foldl_cons,
      List.foldl_nil, Event.mark]
    split
    · rfl
    · rw [wf.globals_bindAt, if_pos wf.root_eq]
  | spawn name presets =>
    simp only [perform, effects]
    rcases (env.race (env.site.spawn name presets) w).1 with (e | child) | _ | _ | _ <;> rfl
  | stop reason block =>
    simp only [perform, effects]
    split <;> rfl
  | attach modifier => rfl
  | checkAbort | lookup | call | reserve | crash => rfl
  | openScope | openRootScope | closeScope | wait | sleep | scopeDepth | readLog => cases plain

end Environment

open Environment in
/-- A program leaves the marks of its history, however it ends. -/
theorem Program.Orderly.footprint {p : Program β α} (h : p.Orderly) (env : Environment β ε)
    {s : RunState} (wf : s.scopes.WellFormed) (w : World ε) :
    (env.run p s w).2.1.footprint = (env.history p s w).foldl Event.mark s.footprint := by
  induction h generalizing s w with
  | done r => rfl
  | act a plain =>
    rw [run_perform, history_perform]
    exact env.perform_footprint plain wf w
  | @bind α γ p f first rest ihf ihr =>
    -- The second part starts where the first ends, in an arena that is well formed again.
    have one := ihf wf w
    rw [run_bind, history_bind, List.foldl_append, ← one]
    rcases ran : env.run p s w with ⟨ending, t, v⟩
    cases ending with
    | result r =>
      cases r with
      | ok a => exact ihr a ((first.kept wf ran).wellFormed wf) v
      | error e => rfl
    | cut | stuck | crash => rfl
  | @inScope α p body ih =>
    have opened : s.scopes.openScope.WellFormed := wf.openUnder wf.current_lt
    have inner := ih (s := { s with scopes := s.scopes.openScope }) opened w
    have same : RunState.footprint { s with scopes := s.scopes.openScope } = s.footprint := by
      simp only [RunState.footprint, Scopes.openScope, Scopes.globals_openUnder]
    rw [run_inScope, history_inScope, ← same, ← inner]
    rcases env.run p { s with scopes := s.scopes.openScope } w with ⟨ending, t, v⟩
    cases ending with
    | result r => simp only [RunState.footprint, Scopes.globals_closeScope]
    | cut | stuck | crash => rfl

end BlockScript
