import BlockScript.Proofs.Events
import BlockScript.Proofs.ScopeDiscipline
/-!
Expressions.

A tree of kinds that only compute, read variables, branch, repeat and open scopes changes nothing,
whether it comes to a value or fails. What it comes to depends on two frames only, and there on the
names it reads. Only counting branches can crash it.
-/

namespace BlockScript

variable {β ε ζ α γ : Type}

/-- The kinds of which expressions are made. -/
def Stock.isExpression : Stock → Bool
  | .number | .text | .boolean | .null | .arithmetic | .comparison | .logic | .negation | .join
  | .getVariable | .branches | .repetition | .scope => true
  | .setVariable | .setGlobal | .failure | .siteCall | .childScript | .logTag => false

example : (Stock.kinds.filter fun e => e.2.isExpression).map Prod.fst =
    ["math_number", "text", "logic_boolean", "logic_null", "math_arithmetic", "logic_compare",
      "logic_operation", "logic_negate", "text_join", "variables_get", "controls_if",
      "controls_repeat_ext", "controls_repeat", "controls_scope"] := by
  decide

namespace Block

/-- A tree of such kinds. -/
def IsExpression (b : Block Stock) : Prop :=
  ∀ d, b.Contains d → d.header.behavior.isExpression = true

theorem isExpression_mk_iff {h : Header Stock} {inputs : List (String × Block Stock)}
    {next : Option (Block Stock)} :
    (Block.mk h inputs next).IsExpression ↔ h.behavior.isExpression = true ∧
      (∀ slot b, Entries.value? slot inputs = some b → b.IsExpression) ∧
      ∀ b, next = some b → b.IsExpression := by
  constructor
  · intro all
    exact ⟨all _ (.self _), fun slot b plugged d inner => all d (.input plugged inner),
      fun b follows d later => all d (.next follows later)⟩
  · rintro ⟨own, inner, after⟩ d inside
    cases inside with
    | self => exact own
    | @input _ b _ slot plugged deeper => exact inner slot b plugged d deeper
    | @next _ b _ follows later => exact after b follows d later

/-- The names under which the blocks of a tree read variables. -/
def Reads (b : Block Stock) (name : String) : Prop :=
  ∃ d, b.Contains d ∧ d.header.behavior = .getVariable ∧ Kinds.variableName d.header = .ok name

end Block

namespace Scopes

/-- Scopes whose current frames hold the same under some names, and so do their roots. -/
structure AgreeOn (names : String → Prop) (s t : Scopes) : Prop where
  current : ∀ name, names name → Entries.value? name (s.bindingsAt s.current) =
    Entries.value? name (t.bindingsAt t.current)
  root : ∀ name, names name → Entries.value? name (s.bindingsAt s.root) =
    Entries.value? name (t.bindingsAt t.root)

variable {names : String → Prop} {s t : Scopes}

theorem AgreeOn.refl (names : String → Prop) (s : Scopes) : s.AgreeOn names s :=
  ⟨fun _ _ => rfl, fun _ _ => rfl⟩

theorem AgreeOn.get_eq (agree : s.AgreeOn names t) {name : String} (mem : names name) :
    s.get name = t.get name := by
  rw [get, get, agree.current name mem, agree.root name mem]

theorem WellFormed.root_openScope (wf : s.WellFormed) :
    s.openScope.bindingsAt s.openScope.root = s.bindingsAt s.root := by
  have opened : s.openScope.WellFormed := wf.openUnder wf.current_lt
  rw [opened.root_eq, wf.root_eq]
  exact s.bindingsAt_openUnder s.current 0 wf.depth_pos

theorem bindingsAt_opened (s : Scopes) : s.openScope.bindingsAt s.openScope.current = [] := by
  simp [openScope, openUnder, bindingsAt]

/-- A new frame holds nothing, and the root stays. -/
theorem AgreeOn.openScope (agree : s.AgreeOn names t) (left : s.WellFormed) (right : t.WellFormed) :
    s.openScope.AgreeOn names t.openScope where
  current name _ := by rw [bindingsAt_opened, bindingsAt_opened]
  root name mem := by rw [left.root_openScope, right.root_openScope, agree.root name mem]

theorem WellFormed.closeScope_openScope (wf : s.WellFormed) :
    s.openScope.closeScope s.current = s := by
  have live : s.frames.length ≠ 0 := Nat.ne_of_gt wf.depth_pos
  simp [Scopes.closeScope, Scopes.openScope, Scopes.openUnder, live]

end Scopes

/-- Nobody watches, the signal is down, and the scopes are in order. -/
structure Environment.AtEase (env : Environment β ε) (s : RunState) (w : World ε) : Prop where
  unwatched : env.debugger = none
  quiet : env.aborted w.peers = false
  wellFormed : s.scopes.WellFormed

theorem Environment.AtEase.opened {env : Environment β ε} {s : RunState} {w : World ε}
    (ease : env.AtEase s w) :
    env.AtEase { s with scopes := s.scopes.openScope } w :=
  ⟨ease.unwatched, ease.quiet, ease.wellFormed.openUnder ease.wellFormed.current_lt⟩

namespace Program

/-- A program that comes to the same from all states that agree on some names, where nothing
happens and nothing changes. Or it crashes from all of them, before anything happened. -/
def Pure (names : String → Prop) (p : Program β α) : Prop :=
  ∀ ⦃ε ζ : Type⦄ (env : Environment β ε) (other : Environment β ζ) (s t : RunState) (w : World ε)
    (u : World ζ), env.AtEase s w → other.AtEase t u → s.scopes.AgreeOn names t.scopes →
    env.history p s w = [] ∧
      ((∃ r, env.run p s w = (.result r, s, w) ∧ other.run p t u = (.result r, t, u)) ∨
        (∃ s' w', env.run p s w = (.crash, s', w')) ∧ ∃ t' u', other.run p t u = (.crash, t', u'))

variable {names : String → Prop}

/-- The actions of pure programs, their scopes aside. -/
inductive Mild (names : String → Prop) : Action β → Prop
  | checkAbort : Mild names .checkAbort
  | stop (reason : StopReason) (b : Block β) : Mild names (.stop reason b)
  | lookup (name : String) (mem : names name) : Mild names (.lookup name)
  | crash : Mild names .crash

theorem Mild.pure {a : Action β} (mild : Mild names a) : (perform a).Pure names := by
  intro ε ζ env other s t w u left right agree
  simp only [env.run_perform, other.run_perform, env.history_perform, Environment.events,
    Environment.effects, Environment.notices]
  cases mild with
  | checkAbort =>
    exact ⟨by simp, .inl ⟨.ok (), by simp [Environment.perform, left.quiet],
      by simp [Environment.perform, right.quiet]⟩⟩
  | stop reason b =>
    exact ⟨by simp [left.unwatched], .inl ⟨.ok (), by simp [Environment.perform, left.unwatched],
      by simp [Environment.perform, right.unwatched]⟩⟩
  | lookup name mem =>
    refine ⟨by simp, .inl ⟨.ok (s.scopes.get name), rfl, ?_⟩⟩
    rw [agree.get_eq mem]
    rfl
  | crash => exact ⟨by simp, .inr ⟨⟨s, w, rfl⟩, t, u, rfl⟩⟩

theorem Pure.bind {p : Program β α} {f : α → Program β γ} (first : p.Pure names)
    (rest : ∀ a, (f a).Pure names) : (p >>= f).Pure names := by
  intro ε ζ env other s t w u left right agree
  obtain ⟨nothing, ⟨r, ran, also⟩ | ⟨⟨s', w', ran⟩, t', u', also⟩⟩ :=
    first env other s t w u left right agree
  · rw [env.run_bind, other.run_bind, env.history_bind, ran, nothing, also]
    cases r with
    | ok a => exact rest a env other s t w u left right agree
    | error e => exact ⟨rfl, .inl ⟨.error e, rfl, rfl⟩⟩
  · rw [env.run_bind, other.run_bind, env.history_bind, ran, nothing, also]
    exact ⟨rfl, .inr ⟨⟨s', w', rfl⟩, t', u', rfl⟩⟩

/-- The body finds a new frame and leaves it as it found it, so closing it restores the scopes. -/
theorem Pure.inScope {p : Program β α} (body : p.Pure names) : p.inScope.Pure names := by
  intro ε ζ env other s t w u left right agree
  obtain ⟨nothing, ⟨r, ran, also⟩ | ⟨⟨s', w', ran⟩, t', u', also⟩⟩ :=
    body env other _ _ w u left.opened right.opened
      (agree.openScope left.wellFormed right.wellFormed)
  · refine ⟨by rw [env.history_inScope, nothing], .inl ⟨r, ?_, ?_⟩⟩
    · simp only [env.run_inScope, ran, left.wellFormed.closeScope_openScope]
    · simp only [other.run_inScope, also, right.wellFormed.closeScope_openScope]
  · refine ⟨by rw [env.history_inScope, nothing], .inr ⟨⟨s', w', ?_⟩, t', u', ?_⟩⟩
    · simp only [env.run_inScope, ran]
    · simp only [other.run_inScope, also]

theorem compositional_pure :
    Compositional (fun _ (p : Program β _) => p.Pure names) (Mild names) where
  done r := fun _ _ _ _ _ _ _ _ _ _ _ => ⟨rfl, .inl ⟨r, rfl, rfl⟩⟩
  act _ mild := mild.pure
  bind := Pure.bind
  inScope := Pure.inScope

end Program

/-- What an expression performs reads a variable, looks at the signal or crashes. -/
theorem Stock.performs_mild {k : Stock} (expression : k.isExpression = true) {header : Header β}
    {a : Action β} (performs : k.Performs header a) :
    a = .checkAbort ∨ a = .crash ∨
      ∃ name, k = .getVariable ∧ Kinds.variableName header = .ok name ∧ a = .lookup name := by
  cases k with
  | getVariable =>
    obtain ⟨name, named, rfl⟩ := performs
    exact .inr (.inr ⟨name, rfl, named, rfl⟩)
  | repetition => exact .inl performs
  | branches => exact .inr (.inl performs.2)
  | setVariable | setGlobal | siteCall | logTag => cases expression
  | _ => cases performs

theorem Block.IsExpression.pure {b : Block Stock} (expression : b.IsExpression) :
    b.program.Pure b.Reads := by
  have c : Program.Compositional (fun _ (p : Program Stock _) => p.Pure b.Reads)
      (Program.Mild b.Reads) := Program.compositional_pure
  refine b.program_holds c (fun d => c.enter .checkAbort (.stop .enter d))
    (fun d => c.act (.stop .leave d) (.stop .leave d)) ?_ ?_
  · intro d inside child
    have possible := expression d inside
    rw [child] at possible
    cases possible
  · intro d inside a performs
    obtain rfl | rfl | ⟨name, get, named, rfl⟩ :=
      Stock.performs_mild (expression d inside) performs
    · exact .checkAbort
    · exact .crash
    · exact .lookup name ⟨d, inside, get, named⟩

end BlockScript
