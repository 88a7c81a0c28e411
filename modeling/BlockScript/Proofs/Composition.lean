import BlockScript.Execution
import BlockScript.Kinds
import BlockScript.Proofs.EntryMaps
/-!
How programs are put together, and how what is put together runs.

The programs of standard blocks are built from a few actions by sequencing and by scopes that are
opened and closed in pairs. What sequences and scopes inherit from their parts, every chain of
standard blocks has if the actions of its kinds do. `Orderly` is the least such property; what holds
of every run of a block is proved by induction on it.
-/

namespace BlockScript

/-- What ends an evaluation without a value. -/
inductive Interruption where
  | error (e : ScriptError)
  | crash

/-- The ending of an evaluation that comes to a value or to an interruption. -/
def Ending.of {α : Type} : Except Interruption α → Ending α
  | .ok a => .result (.ok a)
  | .error (.error e) => .result (.error e)
  | .error .crash => .crash

theorem Ending.of_injective {α : Type} {q r : Except Interruption α}
    (eq : Ending.of q = Ending.of r) : q = r := by
  rcases q with (e | _) | a <;> rcases r with (e' | _) | a' <;> cases eq <;> rfl

namespace Environment

variable {β ε α γ : Type} (env : Environment β ε)

theorem run_perform (a : Action β) (s : RunState) (w : World ε) :
    env.run (Program.perform a) s w = env.perform a s w := by
  simp only [Program.perform, run]
  obtain ⟨ending, s', w'⟩ := env.perform a s w
  cases ending <;> rfl

/-- A sequence runs its first part, and its second part with the value of the first. -/
theorem run_bind (p : Program β α) (f : α → Program β γ) (s : RunState) (w : World ε) :
    env.run (p >>= f) s w =
      match env.run p s w with
      | (.result (.ok a), s, w) => env.run (f a) s w
      | (.result (.error e), s, w) => (.result (.error e), s, w)
      | (.cut, s, w) => (.cut, s, w)
      | (.stuck, s, w) => (.stuck, s, w)
      | (.crash, s, w) => (.crash, s, w) := by
  change env.run (p.bind f) s w = _
  induction p generalizing s w with
  | done r => cases r <;> rfl
  | act a resume ih =>
    simp only [Program.bind, run]
    obtain ⟨ending, s', w'⟩ := env.perform a s w
    cases ending with
    | result reply => exact ih reply s' w'
    | cut | stuck | crash => rfl

/-- Whatever result a program has, the scope is closed with it. -/
theorem run_closing (previous : Nat) (p : Program β α) (s : RunState) (w : World ε) :
    env.run (p.closing previous) s w =
      match env.run p s w with
      | (.result r, s, w) => (.result r, { s with scopes := s.scopes.closeScope previous }, w)
      | (.cut, s, w) => (.cut, s, w)
      | (.stuck, s, w) => (.stuck, s, w)
      | (.crash, s, w) => (.crash, s, w) := by
  induction p generalizing s w with
  | done r => rfl
  | act a resume ih =>
    simp only [Program.closing, run]
    obtain ⟨ending, s', w'⟩ := env.perform a s w
    cases ending with
    | result reply => exact ih reply s' w'
    | cut | stuck | crash => rfl

theorem run_inScope (p : Program β α) (s : RunState) (w : World ε) :
    env.run p.inScope s w =
      match env.run p { s with scopes := s.scopes.openScope } w with
      | (.result r, t, w) =>
        (.result r, { t with scopes := t.scopes.closeScope s.scopes.current }, w)
      | (.cut, t, w) => (.cut, t, w)
      | (.stuck, t, w) => (.stuck, t, w)
      | (.crash, t, w) => (.crash, t, w) := by
  rw [Program.inScope, run_bind, run_perform]
  exact env.run_closing s.scopes.current p { s with scopes := s.scopes.openScope } w

/-- What the root scope is to hold concerns no program. -/
theorem run_presets (presets : Bindings) (p : Program β α) (s : RunState) (w : World ε) :
    run { env with site := { env.site with presets } } p s w = env.run p s w := by
  have step (a : Action β) (s : RunState) (w : World ε) :
      perform { env with site := { env.site with presets } } a s w = env.perform a s w := by
    cases a <;> rfl
  induction p generalizing s w with
  | done r => rfl
  | act a resume ih =>
    simp only [run, step]
    obtain ⟨ending, s', w'⟩ := env.perform a s w
    cases ending with
    | result reply => exact ih reply s' w'
    | cut | stuck | crash => rfl

variable {env}

theorem run_bind_result {p : Program β α} {f : α → Program β γ} {s s' : RunState}
    {w w' : World ε} {r : Except ScriptError γ} (h : env.run (p >>= f) s w = (.result r, s', w')) :
    (∃ a t v, env.run p s w = (.result (.ok a), t, v) ∧
      env.run (f a) t v = (.result r, s', w')) ∨
    (∃ e, r = .error e ∧ env.run p s w = (.result (.error e), s', w')) := by
  rw [run_bind] at h
  generalize env.run p s w = x at h ⊢
  obtain ⟨ending, t, v⟩ := x
  cases ending with
  | result q =>
    cases q with
    | ok a => exact .inl ⟨a, t, v, rfl, h⟩
    | error e =>
      simp only [Prod.mk.injEq, Ending.result.injEq] at h
      obtain ⟨rfl, rfl, rfl⟩ := h
      exact .inr ⟨e, rfl, rfl⟩
  | cut | stuck | crash => simp at h

theorem run_inScope_result {p : Program β α} {s s' : RunState} {w w' : World ε}
    {r : Except ScriptError α} (h : env.run p.inScope s w = (.result r, s', w')) :
    ∃ t, env.run p { s with scopes := s.scopes.openScope } w = (.result r, t, w') ∧
      s' = { t with scopes := t.scopes.closeScope s.scopes.current } := by
  rw [run_inScope] at h
  generalize env.run p { s with scopes := s.scopes.openScope } w = x at h
  obtain ⟨ending, t, v⟩ := x
  cases ending with
  | result q =>
    simp only [Prod.mk.injEq, Ending.result.injEq] at h
    obtain ⟨rfl, rfl, rfl⟩ := h
    exact ⟨t, rfl, rfl⟩
  | cut | stuck | crash => simp at h

/-- A sequence comes to what its second part comes to, unless the first interrupts it. -/
theorem run_bind_of {p : Program β α} {f : α → Program β γ} {s s' : RunState}
    {w w' : World ε} {r : Except Interruption γ} (h : env.run (p >>= f) s w = (.of r, s', w')) :
    (∃ a t v, env.run p s w = (.result (.ok a), t, v) ∧ env.run (f a) t v = (.of r, s', w')) ∨
    (∃ i, r = .error i ∧ env.run p s w = (.of (.error i), s', w')) := by
  rw [run_bind] at h
  generalize env.run p s w = x at h ⊢
  obtain ⟨ending, t, v⟩ := x
  have broken {i : Interruption} (ended : (Ending.of (.error i), t, v) = (.of r, s', w')) :
      ∃ i', r = .error i' ∧
        ((Ending.of (.error i) : Ending α), t, v) = (.of (.error i'), s', w') := by
    obtain rfl : Except.error i = r := Ending.of_injective (congrArg Prod.fst ended)
    cases congrArg Prod.snd ended
    exact ⟨i, rfl, rfl⟩
  cases ending with
  | result x =>
    cases x with
    | ok a => exact .inl ⟨a, t, v, rfl, h⟩
    | error e => exact .inr (broken (i := .error e) h)
  | cut | stuck => rcases r with (_ | _) | _ <;> cases h
  | crash => exact .inr (broken (i := .crash) h)

theorem run_inScope_of {p : Program β α} {s s' : RunState} {w w' : World ε}
    {r : Except Interruption α} (h : env.run p.inScope s w = (.of r, s', w')) :
    ∃ t, env.run p { s with scopes := s.scopes.openScope } w = (.of r, t, w') := by
  rw [run_inScope] at h
  generalize env.run p { s with scopes := s.scopes.openScope } w = x at h ⊢
  obtain ⟨ending, t, v⟩ := x
  refine ⟨t, ?_⟩
  cases ending with
  | result _ | cut | stuck | crash =>
    simp only [Prod.mk.injEq] at h ⊢
    exact ⟨h.1, trivial, h.2.2⟩

end Environment

namespace Block

variable {β : Type}

/-- To show something of all blocks, show it of a block from its inputs and its successor. -/
theorem induct {motive : Block β → Prop}
    (step : ∀ h inputs next, (∀ slot b, Entries.value? slot inputs = some b → motive b) →
      (∀ b, next = some b → motive b) → motive (.mk h inputs next)) :
    ∀ b, motive b
  | .mk h inputs next =>
    step h inputs next
      (fun slot b hb =>
        have := List.sizeOf_lt_of_mem (Entries.mem_of_value? hb)
        induct step b)
      (fun b _hb => induct step b)
termination_by b => sizeOf b
decreasing_by
  all_goals simp_all
  all_goals omega

/-- The blocks of a tree. -/
inductive Contains : Block β → Block β → Prop
  | self (b : Block β) : Contains b b
  | input {b c d : Block β} {slot : String} (plugged : b.input? slot = some c)
      (inner : Contains c d) : Contains b d
  | next {b c d : Block β} (follows : b.next = some c) (later : Contains c d) : Contains b d

/-- The program of a block's own evaluation. -/
def own [Behavior β] : Block β → Program β Value
  | .mk h inputs _ => Behavior.program h.behavior h (program.inputPrograms inputs)

/-- What is left of a chain once its first block is entered. -/
def evaluation [Behavior β] (b : Block β) : Program β Value := do
  let v ← b.own
  Program.perform (.stop .leave b)
  program.continuation v b.next

theorem program_eq [Behavior β] (b : Block β) :
    b.program = Program.perform .checkAbort >>= fun _ =>
      Program.perform (.stop .enter b) >>= fun _ => b.evaluation := by
  cases b
  rfl

/-- When nobody watches, a chain looks at the signal, runs its first block and goes on with the
next. -/
theorem run_program [Behavior β] {ε : Type} {env : Environment β ε}
    (unwatched : env.debugger = none) (b : Block β) (s : RunState) (w : World ε) :
    env.run b.program s w = env.run (Program.perform .checkAbort >>= fun _ =>
      b.own >>= fun v => program.continuation v b.next) s w := by
  have stop (reason : StopReason) (t : RunState) (u : World ε) :
      env.run (Program.perform (.stop reason b)) t u = (.result (.ok ()), t, u) := by
    rw [env.run_perform, Environment.perform, unwatched]
  rw [b.program_eq, evaluation, env.run_bind, env.run_bind]
  simp only [env.run_bind, stop]

theorem value?_inputPrograms [Behavior β] (slot : String) (inputs : List (String × Block β)) :
    Entries.value? slot (program.inputPrograms inputs) =
      (Entries.value? slot inputs).map program := by
  induction inputs with
  | nil => rfl
  | cons e rest ih =>
    obtain ⟨n, b⟩ := e
    by_cases eq : n = slot
    · simp [program.inputPrograms, Entries.value?, eq]
    · simpa [program.inputPrograms, Entries.value?, eq] using ih

theorem required_of_plugged [Behavior β] {b c : Block β} {slot : String}
    (plugged : b.input? slot = some c) :
    Inputs.required (program.inputPrograms b.inputs) b.header slot = c.program := by
  have found : Entries.value? slot b.inputs = some c := plugged
  rw [Inputs.required, value?_inputPrograms, found]
  rfl

theorem required_of_unplugged [Behavior β] {b : Block β} {slot : String}
    (unplugged : b.input? slot = none) :
    Inputs.required (program.inputPrograms b.inputs) b.header slot =
      .done (.error (.missingInput b.kind b.header.label slot)) := by
  have missing : Entries.value? slot b.inputs = none := unplugged
  rw [Inputs.required, value?_inputPrograms, missing]
  rfl

end Block

namespace Log.Modifier

/-- The modifiers that standard blocks attach. -/
def Stocked (m : Modifier) : Prop :=
  (∃ key value, m = tag key value) ∨ ∃ id, m = childScript id

end Log.Modifier

namespace Action

variable {β : Type}

/-- The actions of standard blocks, the opening and closing of scopes aside. -/
def Plain : Action β → Prop
  | .checkAbort | .lookup _ | .assign _ _ | .assignGlobal _ _ | .call _ _ | .spawn _ _
  | .reserve _ | .crash => True
  | .stop reason _ => reason ≠ .finish
  | .attach m => m.Stocked
  | _ => False

/-- Actions that concern no variables but those of some names, and no clock. -/
def Confined (names : String → Prop) : Action β → Prop
  | .lookup name | .assign name _ | .assignGlobal name _ => names name
  | .attach m => m.Stocked
  | .readLog => False
  | _ => True

theorem Confined.mono {names more : String → Prop} {a : Action β} (h : a.Confined names)
    (wider : ∀ name, names name → more name) : a.Confined more := by
  cases a with
  | lookup name | assign name | assignGlobal name => exact wider name h
  | _ => exact h

end Action

namespace Program

variable {β : Type}

theorem bind_done {α : Type} (p : Program β α) : p.bind (fun a => .done (.ok a)) = p := by
  induction p with
  | done r => cases r <;> rfl
  | act a resume ih => exact congrArg (Program.act a) (funext ih)

theorem bind_bind {α γ δ : Type} (p : Program β α) (f : α → Program β γ) (g : γ → Program β δ) :
    (p.bind f).bind g = p.bind fun a => (f a).bind g := by
  induction p with
  | done r => cases r <;> rfl
  | act a resume ih => exact congrArg (Program.act a) (funext ih)

instance : LawfulMonad (Program β) :=
  LawfulMonad.mk' (Program β) bind_done (fun _ _ => rfl) bind_bind

/-- Programs built from plain actions by sequencing and by scopes of their own. -/
inductive Orderly : {α : Type} → Program β α → Prop
  | done {α : Type} (r : Except ScriptError α) : Orderly (.done r)
  | act (a : Action β) (plain : a.Plain) : Orderly (perform a)
  | bind {α γ : Type} {p : Program β α} {f : α → Program β γ} (first : Orderly p)
      (rest : ∀ a, Orderly (f a)) : Orderly (p >>= f)
  | inScope {α : Type} {p : Program β α} (body : Orderly p) : Orderly p.inScope

/-- All actions a program can come to. -/
def All {α : Type} (P : Action β → Prop) : Program β α → Prop
  | .done _ => True
  | .act a resume => P a ∧ ∀ reply, (resume reply).All P

theorem All.bind {α γ : Type} {P : Action β → Prop} {p : Program β α} {f : α → Program β γ}
    (first : p.All P) (rest : ∀ a, (f a).All P) : (p >>= f).All P := by
  change (p.bind f).All P
  induction p with
  | done r =>
    cases r with
    | ok a => exact rest a
    | error e => trivial
  | act a resume ih => exact ⟨first.1, fun reply => ih reply (first.2 reply)⟩

theorem All.closing {α : Type} {P : Action β → Prop} {p : Program β α} (h : p.All P)
    {previous : Nat} (close : P (.closeScope previous)) : (p.closing previous).All P := by
  induction p with
  | done r => exact ⟨close, fun _ => trivial⟩
  | act a resume ih => exact ⟨h.1, fun reply => ih reply (h.2 reply)⟩

/-- What every action keeps of the state of a run, a whole program keeps, however it ends. -/
theorem All.run_keeps {ε α : Type} {env : Environment β ε} {P : Action β → Prop}
    {Q : RunState → Prop} (step : ∀ a s w, P a → Q s → Q (env.perform a s w).2.1)
    {p : Program β α} (h : p.All P) {s : RunState} (start : Q s) (w : World ε) :
    Q (env.run p s w).2.1 := by
  induction p generalizing s w with
  | done r => exact start
  | act a resume ih =>
    obtain ⟨now, later⟩ := h
    have kept := step a s w now start
    rcases performed : env.perform a s w with ⟨ending, t, v⟩
    rw [performed] at kept
    simp only [Environment.run, performed]
    cases ending with
    | result reply => exact ih reply (later reply) kept v
    | cut | stuck | crash => exact kept

/-- The actions of orderly programs are plain ones and the opening and closing of scopes. -/
theorem Orderly.all {α : Type} {p : Program β α} (h : p.Orderly) :
    p.All fun a => a.Plain ∨ a = .openScope ∨ ∃ previous, a = .closeScope previous := by
  induction h with
  | done r => trivial
  | act a plain => exact ⟨.inl plain, fun _ => trivial⟩
  | bind first rest ihf ihr => exact ihf.bind ihr
  | @inScope α p body ih =>
    have opening : (perform .openScope : Program β Nat).All
        fun a => a.Plain ∨ a = .openScope ∨ ∃ previous, a = .closeScope previous :=
      ⟨.inr (.inl rfl), fun _ => trivial⟩
    exact opening.bind fun previous => ih.closing (.inr (.inr ⟨previous, rfl⟩))

/-- A relation of programs that the allowed actions have to themselves, and that sequences and
scopes inherit from their parts. -/
structure Congruence (related : (α : Type) → Program β α → Program β α → Prop)
    (allowed : Action β → Prop) : Prop where
  done : ∀ {α : Type} (r : Except ScriptError α), related α (.done r) (.done r)
  act : ∀ a, allowed a → related a.Reply (perform a) (perform a)
  bind : ∀ {α γ : Type} {p q : Program β α} {f g : α → Program β γ}, related α p q →
    (∀ a, related γ (f a) (g a)) → related γ (p >>= f) (q >>= g)
  inScope : ∀ {α : Type} {p q : Program β α}, related α p q → related α p.inScope q.inScope

namespace Congruence

variable {related : (α : Type) → Program β α → Program β α → Prop} {allowed : Action β → Prop}
  (c : Congruence related allowed)
include c

/-- What can be computed without asking anything is related if what follows it is. -/
theorem lift {α γ : Type} (r : Except ScriptError α) {f g : α → Program β γ}
    (rest : ∀ a, r = .ok a → related γ (f a) (g a)) :
    related γ (liftM r >>= f) (liftM r >>= g) := by
  cases r with
  | ok a => exact rest a rfl
  | error e => exact c.done (.error e)

theorem crash {α : Type} (crash : allowed .crash) :
    related α Program.crash Program.crash :=
  c.bind (c.act .crash crash) fun never => never.elim

theorem callSite (look : allowed .checkAbort) {service : String} {args : List Value}
    (call : allowed (.call service args)) :
    related Value (Program.callSite service args) (Program.callSite service args) :=
  c.bind (c.act .checkAbort look) fun _ => c.act (.call service args) call

end Congruence

/-- A property of programs that the allowed actions have, and that sequences and scopes inherit
from their parts. -/
structure Compositional (holds : (α : Type) → Program β α → Prop) (allowed : Action β → Prop) :
    Prop where
  done : ∀ {α : Type} (r : Except ScriptError α), holds α (.done r)
  act : ∀ a, allowed a → holds a.Reply (perform a)
  bind : ∀ {α γ : Type} {p : Program β α} {f : α → Program β γ}, holds α p →
    (∀ a, holds γ (f a)) → holds γ (p >>= f)
  inScope : ∀ {α : Type} {p : Program β α}, holds α p → holds α p.inScope

theorem compositional_orderly :
    Compositional (fun _ (p : Program β _) => p.Orderly) Action.Plain :=
  ⟨.done, .act, .bind, .inScope⟩

theorem compositional_all {P : Action β → Prop} (opens : P .openScope)
    (closes : ∀ previous, P (.closeScope previous)) :
    Compositional (fun _ (p : Program β _) => p.All P) P where
  done _ := trivial
  act _ allowed := ⟨allowed, fun _ => trivial⟩
  bind := All.bind
  inScope body := by
    have opening : (perform .openScope : Program β Nat).All P := ⟨opens, fun _ => trivial⟩
    exact opening.bind fun previous => body.closing (closes previous)

namespace Compositional

variable {holds : (α : Type) → Program β α → Prop} {allowed : Action β → Prop}
  (c : Compositional holds allowed)
include c

/-- What all parts of a program have, they have as a relation to themselves. -/
theorem congruence : Congruence (fun α p q => p = q ∧ holds α p) allowed where
  done r := ⟨rfl, c.done r⟩
  act a performed := ⟨rfl, c.act a performed⟩
  bind := by
    rintro α γ p _ f g ⟨rfl, first⟩ rest
    exact ⟨congrArg (p >>= ·) (funext fun a => (rest a).1), c.bind first fun a => (rest a).2⟩
  inScope := by
    rintro α p _ ⟨rfl, body⟩
    exact ⟨rfl, c.inScope body⟩

theorem lift {α γ : Type} (r : Except ScriptError α) {f : α → Program β γ}
    (rest : ∀ a, r = .ok a → holds γ (f a)) : holds γ (liftM r >>= f) :=
  (c.congruence.lift r fun a ok => ⟨rfl, rest a ok⟩).2

theorem crash {α : Type} (crash : allowed .crash) : holds α Program.crash :=
  (c.congruence.crash crash).2

theorem callSite (look : allowed .checkAbort) {service : String} {args : List Value}
    (call : allowed (.call service args)) : holds Value (Program.callSite service args) :=
  (c.congruence.callSite look call).2

/-- A block is entered once the signal was looked at. -/
theorem enter (look : allowed .checkAbort) {b : Block β} (stop : allowed (.stop .enter b)) :
    holds Unit (Program.perform .checkAbort >>= fun _ => Program.perform (.stop .enter b)) :=
  c.bind (c.act .checkAbort look) fun _ => c.act (.stop .enter b) stop

theorem spawnChild (look : allowed .checkAbort) {name : String} {presets : Bindings}
    (spawn : allowed (.spawn name presets))
    (link : ∀ id, allowed (.attach (.childScript id))) :
    holds String (Program.spawnChild name presets) :=
  c.bind (c.act .checkAbort look) fun _ => c.bind (c.act (.spawn name presets) spawn) fun child =>
    c.bind (c.act (.attach (.childScript child.id)) (link child.id)) fun _ => c.done _

end Compositional

end Program

namespace Inputs

variable {β : Type}

/-- Inputs with the same slots, and related programs in them. -/
def Related (related : (α : Type) → Program β α → Program β α → Prop) (inputs others : Inputs β) :
    Prop :=
  ∀ slot, Option.Rel (related Value) (Entries.value? slot inputs) (Entries.value? slot others)

/-- Inputs whose programs all have a property. -/
def Hold (holds : (α : Type) → Program β α → Prop) (inputs : Inputs β) : Prop :=
  ∀ slot p, Entries.value? slot inputs = some p → holds Value p

section

variable {related : (α : Type) → Program β α → Program β α → Prop} {allowed : Action β → Prop}
  {inputs others : Inputs β} (c : Program.Congruence related allowed)
  (h : inputs.Related related others)
include c h

theorem Related.required (header : Header β) (slot : String) :
    related Value (inputs.required header slot) (others.required header slot) := by
  have slots := h slot
  revert slots
  simp only [Inputs.required]
  generalize Entries.value? slot inputs = p, Entries.value? slot others = q
  rintro (programs | _)
  · exact programs
  · exact c.done _

theorem Related.optional (slot : String) :
    related (Option Value) (inputs.optional slot) (others.optional slot) := by
  have slots := h slot
  revert slots
  simp only [Inputs.optional]
  generalize Entries.value? slot inputs = p, Entries.value? slot others = q
  rintro (programs | _)
  · exact c.bind programs fun v => c.done _
  · exact c.done _

theorem Related.statements (slot : String) :
    related Value (inputs.statements slot) (others.statements slot) := by
  have slots := h slot
  revert slots
  simp only [Inputs.statements]
  generalize Entries.value? slot inputs = p, Entries.value? slot others = q
  rintro (programs | _)
  · exact programs
  · exact c.done _

end

variable {holds : (α : Type) → Program β α → Prop} {allowed : Action β → Prop} {inputs : Inputs β}

theorem Hold.related (h : inputs.Hold holds) :
    inputs.Related (fun α p q => p = q ∧ holds α p) inputs := by
  intro slot
  cases plugged : Entries.value? slot inputs with
  | none => exact .none
  | some p => exact .some ⟨rfl, h slot p plugged⟩

theorem Hold.statements (c : Program.Compositional holds allowed) (h : inputs.Hold holds)
    (slot : String) : holds Value (inputs.statements slot) :=
  (h.related.statements c.congruence slot).2

end Inputs

namespace Stock

variable {β : Type}

/-- The actions of a kind, those of its inputs, the scopes it opens and the children it starts
aside. -/
def Performs (header : Header β) : Stock → Action β → Prop
  | .getVariable, a => ∃ name, Kinds.variableName header = .ok name ∧ a = .lookup name
  | .setVariable, a =>
    ∃ name value, Kinds.variableName header = .ok name ∧ a = .assign name value
  | .setGlobal, a =>
    ∃ name value, Kinds.variableName header = .ok name ∧ a = .assignGlobal name value
  | .branches, a => ¬header.count "elseIfCount" + 1 < Nat.pow 2 64 ∧ a = .crash
  | .repetition, a => a = .checkAbort
  | .siteCall, a =>
    a = .checkAbort ∨ a = .reserve (header.count "argCount") ∨
      ∃ service args, a = .call service args
  | .logTag, a => ∃ key, ∃ value : Value, a = .attach (.tag key value.toJson)
  | _, _ => False

theorem performs_cases {header : Header β} {k : Stock} {a : Action β} (h : k.Performs header a) :
    a = .checkAbort ∨ a = .crash ∨ (∃ count, a = .reserve count) ∨
    (∃ service args, a = .call service args) ∨
    (∃ key, ∃ value : Value, a = .attach (.tag key value.toJson)) ∨
    ∃ name, Kinds.variableName header = .ok name ∧
      (a = .lookup name ∨ ∃ value, a = .assign name value ∨ a = .assignGlobal name value) := by
  cases k with
  | getVariable =>
    obtain ⟨name, named, rfl⟩ := h
    exact .inr (.inr (.inr (.inr (.inr ⟨name, named, .inl rfl⟩))))
  | setVariable =>
    obtain ⟨name, value, named, rfl⟩ := h
    exact .inr (.inr (.inr (.inr (.inr ⟨name, named, .inr ⟨value, .inl rfl⟩⟩))))
  | setGlobal =>
    obtain ⟨name, value, named, rfl⟩ := h
    exact .inr (.inr (.inr (.inr (.inr ⟨name, named, .inr ⟨value, .inr rfl⟩⟩))))
  | branches => exact .inr (.inl h.2)
  | repetition => exact .inl h
  | siteCall =>
    obtain rfl | reserved | called := h
    · exact .inl rfl
    · exact .inr (.inr (.inl ⟨_, reserved⟩))
    · exact .inr (.inr (.inr (.inl called)))
  | logTag => exact .inr (.inr (.inr (.inr (.inl h))))
  | _ => cases h

/-- A kind performs plain actions, and concerns no variable but the one its block refers to. -/
theorem performs_own {header : Header β} {k : Stock} {a : Action β} (h : k.Performs header a) :
    a.Plain ∧ a.Confined fun name => Kinds.variableName header = .ok name := by
  obtain rfl | rfl | ⟨count, rfl⟩ | ⟨service, args, rfl⟩ | ⟨key, value, rfl⟩ |
      ⟨name, named, rfl | ⟨value, rfl | rfl⟩⟩ := performs_cases h
  · exact ⟨trivial, trivial⟩
  · exact ⟨trivial, trivial⟩
  · exact ⟨trivial, trivial⟩
  · exact ⟨trivial, trivial⟩
  · exact ⟨.inl ⟨key, value.toJson, rfl⟩, .inl ⟨key, value.toJson, rfl⟩⟩
  · exact ⟨trivial, named⟩
  · exact ⟨trivial, named⟩
  · exact ⟨trivial, named⟩

end Stock

namespace Kinds

variable {β : Type} {related : (α : Type) → Program β α → Program β α → Prop}
  {allowed : Action β → Prop} (c : Program.Congruence related allowed) {inputs others : Inputs β}
  (h : inputs.Related related others) (header : Header β)
include c h

theorem arithmeticBlock_related :
    related Value (arithmeticBlock header inputs) (arithmeticBlock header others) :=
  c.lift _ fun _ _ => c.bind (h.required c header "A") fun _ => c.lift _ fun _ _ =>
    c.bind (h.required c header "B") fun _ => c.lift _ fun _ _ => c.lift _ fun _ _ => c.done _

theorem comparisonBlock_related :
    related Value (comparisonBlock header inputs) (comparisonBlock header others) :=
  c.lift _ fun _ _ => c.bind (h.required c header "A") fun _ =>
    c.bind (h.required c header "B") fun _ => c.lift _ fun _ _ => c.done _

theorem logicBlock_related :
    related Value (logicBlock header inputs) (logicBlock header others) := by
  have second :
      related Value (logicBlock.second header inputs) (logicBlock.second header others) :=
    c.bind (h.required c header "B") fun _ => c.done _
  refine c.lift _ fun op _ => c.bind (h.required c header "A") fun a => ?_
  split
  · split
    · exact second
    · exact c.done _
  · split
    · exact c.done _
    · exact second
  · exact c.done _

theorem negationBlock_related :
    related Value (negationBlock header inputs) (negationBlock header others) :=
  c.bind (h.required c header "BOOL") fun _ => c.done _

theorem joinItems_related (count index : Nat) :
    related String (joinItems inputs count index) (joinItems others count index) := by
  induction count generalizing index with
  | zero => exact c.done _
  | succ count ih =>
    exact c.bind (h.optional c _) fun _ => c.bind (ih (index + 1)) fun _ => c.done _

theorem joinBlock_related : related Value (joinBlock header inputs) (joinBlock header others) :=
  c.bind (joinItems_related c h _ 0) fun _ => c.done _

theorem setBlock_related (own : ∀ a, Stock.Performs header .setVariable a → allowed a) :
    related Value (setBlock header inputs) (setBlock header others) :=
  c.lift _ fun name named => c.bind (h.required c header "VALUE") fun value =>
    c.bind (c.act (.assign name value) (own _ ⟨name, value, named, rfl⟩)) fun _ => c.done _

theorem setGlobalBlock_related (own : ∀ a, Stock.Performs header .setGlobal a → allowed a) :
    related Value (setGlobalBlock header inputs) (setGlobalBlock header others) :=
  c.lift _ fun name named => c.bind (h.required c header "VALUE") fun value =>
    c.bind (c.act (.assignGlobal name value) (own _ ⟨name, value, named, rfl⟩)) fun _ => c.done _

theorem branch_related {otherwise instead : Program β Value}
    (last : related Value otherwise instead) (count index : Nat) :
    related Value (branch inputs otherwise count index) (branch others instead count index) := by
  induction count generalizing index with
  | zero => exact last
  | succ count ih =>
    refine c.bind (h.optional c _) fun condition => ?_
    split
    · exact h.statements c _
    · exact ih (index + 1)

theorem ifBlock_related (own : ∀ a, Stock.Performs header .branches a → allowed a) :
    related Value (ifBlock header inputs) (ifBlock header others) := by
  by_cases few : header.count "elseIfCount" + 1 < Nat.pow 2 64
  · simp only [ifBlock, few, ↓reduceIte]
    apply branch_related c h
    split
    · exact h.statements c "ELSE"
    · exact c.done _
  · simp only [ifBlock, few, ↓reduceIte]
    exact c.crash (own .crash ⟨few, rfl⟩)

theorem iterate_related (look : allowed .checkAbort) (times : Nat) (last : Value) :
    related Value (iterate inputs times last) (iterate others times last) := by
  induction times generalizing last with
  | zero => exact c.done _
  | succ times ih =>
    exact c.bind (c.act .checkAbort look) fun _ =>
      c.bind (c.inScope (h.statements c "DO")) fun v => ih v

theorem repeatBlock_related (own : ∀ a, Stock.Performs header .repetition a → allowed a) :
    related Value (repeatBlock header inputs) (repeatBlock header others) := by
  have body (times : Nat) :
      related Value (iterate inputs times .null) (iterate others times .null) :=
    iterate_related c h (own _ rfl) times .null
  unfold repeatBlock
  split
  · exact c.lift _ fun x _ => body (timesOf x)
  · exact c.bind (h.required c header "TIMES") fun v => c.lift _ fun x _ => body (timesOf x)

theorem failBlock_related : related Value (failBlock inputs) (failBlock others) :=
  c.bind (h.optional c "MESSAGE") fun _ => c.done _

theorem slotValues_related (name : String) (count index : Nat) :
    related (List Value) (slotValues header inputs name count index)
      (slotValues header others name count index) := by
  induction count generalizing index with
  | zero => exact c.done _
  | succ count ih =>
    exact c.bind (h.required c header _) fun _ => c.bind (ih (index + 1)) fun _ => c.done _

theorem callBlock_related (own : ∀ a, Stock.Performs header .siteCall a → allowed a) :
    related Value (callBlock header inputs) (callBlock header others) :=
  c.lift _ fun service _ => c.bind (c.act _ (own _ (.inr (.inl rfl)))) fun _ =>
    c.bind (slotValues_related c h header "ARG" _ 0) fun args =>
      c.callSite (own _ (.inl rfl)) (own _ (.inr (.inr ⟨service, args, rfl⟩)))

theorem childBlock_related
    (spawns : ∀ name presets,
      related String (Program.spawnChild name presets) (Program.spawnChild name presets)) :
    related Value (childBlock header inputs) (childBlock header others) :=
  c.lift _ fun name _ => c.bind (h.optional c "INPUT") fun _ =>
    c.bind (spawns name _) fun _ => c.done _

theorem tagBlock_related (own : ∀ a, Stock.Performs header .logTag a → allowed a) :
    related Value (tagBlock header inputs) (tagBlock header others) :=
  c.lift _ fun key _ => c.bind (h.required c header "VALUE") fun value =>
    c.bind (c.act (.attach (.tag key value.toJson)) (own _ ⟨key, value, rfl⟩)) fun _ =>
      c.done _

end Kinds

/-- The programs of a kind are related if the inputs are, the actions of the kind, and the start of
a child where the kind starts one. -/
theorem Stock.program_related {β : Type} {related : (α : Type) → Program β α → Program β α → Prop}
    {allowed : Action β → Prop} (c : Program.Congruence related allowed) (k : Stock)
    (spawns : k = .childScript → ∀ name presets,
      related String (Program.spawnChild name presets) (Program.spawnChild name presets))
    (header : Header β) {inputs others : Inputs β} (h : inputs.Related related others)
    (own : ∀ a, k.Performs header a → allowed a) :
    related Value (k.program header inputs) (k.program header others) := by
  cases k with
  | number => exact c.lift _ fun _ _ => c.done _
  | text => exact c.lift _ fun _ _ => c.done _
  | boolean => exact c.done _
  | null => exact c.done _
  | arithmetic => exact Kinds.arithmeticBlock_related c h header
  | comparison => exact Kinds.comparisonBlock_related c h header
  | logic => exact Kinds.logicBlock_related c h header
  | negation => exact Kinds.negationBlock_related c h header
  | join => exact Kinds.joinBlock_related c h header
  | getVariable => exact c.lift _ fun name named => c.act (.lookup name) (own _ ⟨name, named, rfl⟩)
  | setVariable => exact Kinds.setBlock_related c h header own
  | setGlobal => exact Kinds.setGlobalBlock_related c h header own
  | branches => exact Kinds.ifBlock_related c h header own
  | repetition => exact Kinds.repeatBlock_related c h header own
  | scope => exact c.inScope (h.statements c "DO")
  | failure => exact Kinds.failBlock_related c h
  | siteCall => exact Kinds.callBlock_related c h header own
  | childScript => exact Kinds.childBlock_related c h header (spawns rfl)
  | logTag => exact Kinds.tagBlock_related c h header own

/-- A block has what its inputs have, what the actions of its kind have, and what the start of a
child has if it starts one. -/
theorem Stock.program_holds {β : Type} {holds : (α : Type) → Program β α → Prop}
    {allowed : Action β → Prop} (c : Program.Compositional holds allowed) (k : Stock)
    (spawns : k = .childScript → ∀ name presets, holds String (Program.spawnChild name presets))
    (header : Header β) {inputs : Inputs β} (h : inputs.Hold holds)
    (own : ∀ a, k.Performs header a → allowed a) : holds Value (k.program header inputs) :=
  (k.program_related c.congruence (fun child name presets => ⟨rfl, spawns child name presets⟩)
    header h.related own).2

namespace Block

/-- Chains are related if their first blocks are, in being entered, evaluated and left, and the
blocks after them. -/
theorem chain_related {β : Type} [Behavior β]
    {related : (α : Type) → Program β α → Program β α → Prop} {allowed : Action β → Prop}
    (c : Program.Congruence related allowed) (b d : Block β)
    (enters : related Unit
      (Program.perform .checkAbort >>= fun _ => Program.perform (.stop .enter b))
      (Program.perform .checkAbort >>= fun _ => Program.perform (.stop .enter d)))
    (own : related Value b.own d.own)
    (leaves : related Unit (Program.perform (.stop .leave b)) (Program.perform (.stop .leave d)))
    (after : Option.Rel (fun m n => related Value m.program n.program) b.next d.next) :
    related Value b.program d.program := by
  have rest (v : Value) :
      related Value (program.continuation v b.next) (program.continuation v d.next) := by
    generalize b.next = m, d.next = n at after
    obtain programs | _ := after
    · exact programs
    · exact c.done _
  rw [program_eq, program_eq, ← bind_assoc, ← bind_assoc]
  exact c.bind enters fun _ => c.bind own fun v => c.bind leaves fun _ => rest v

/-- A chain has what its first block has, in being entered, evaluated and left, and what the blocks
after it have. -/
theorem chain_holds {β : Type} [Behavior β] {holds : (α : Type) → Program β α → Prop}
    {allowed : Action β → Prop} (c : Program.Compositional holds allowed) (b : Block β)
    (enters : holds Unit
      (Program.perform .checkAbort >>= fun _ => Program.perform (.stop .enter b)))
    (own : holds Value b.own) (leaves : holds Unit (Program.perform (.stop .leave b)))
    (after : ∀ n, b.next = some n → holds Value n.program) : holds Value b.program := by
  refine (chain_related c.congruence b b ⟨rfl, enters⟩ ⟨rfl, own⟩ ⟨rfl, leaves⟩ ?_).2
  cases follows : b.next with
  | none => exact .none
  | some n => exact .some ⟨rfl, after n follows⟩

/-- A chain has what entering and leaving its blocks has, and what the kinds in its tree have. -/
theorem program_holds {holds : (α : Type) → Program Stock α → Prop}
    {allowed : Action Stock → Prop} (c : Program.Compositional holds allowed)
    (enters : ∀ b, holds Unit
      (Program.perform .checkAbort >>= fun _ => Program.perform (.stop .enter b)))
    (leaves : ∀ b, holds Unit (Program.perform (.stop .leave b))) (b : Block Stock)
    (spawns : ∀ d, b.Contains d → d.header.behavior = .childScript → ∀ name presets,
      holds String (Program.spawnChild name presets))
    (own : ∀ d, b.Contains d → ∀ a, d.header.behavior.Performs d.header a → allowed a) :
    holds Value b.program := by
  induction b using Block.induct with
  | step h inputs next inner after =>
    have hold : (program.inputPrograms inputs).Hold holds := by
      intro slot p hp
      rw [value?_inputPrograms, Option.map_eq_some_iff] at hp
      obtain ⟨b, hb, rfl⟩ := hp
      exact inner slot b hb (fun d inside => spawns d (.input hb inside))
        fun d inside => own d (.input hb inside)
    exact chain_holds c (.mk h inputs next) (enters _)
      (h.behavior.program_holds c (spawns _ (.self _)) h hold (own _ (.self _))) (leaves _)
      fun n follows => after n follows (fun d inside => spawns d (.next follows inside))
        fun d inside => own d (.next follows inside)

end Block

/-- Every chain of standard blocks is an orderly program. -/
theorem Block.program_orderly (b : Block Stock) : b.program.Orderly := by
  have c : Program.Compositional (fun _ p => p.Orderly) (Action.Plain (β := Stock)) :=
    Program.compositional_orderly
  exact b.program_holds c (fun _ => c.enter trivial nofun) (fun b => c.act (.stop .leave b) nofun)
    (fun _ _ _ _ _ => c.spawnChild trivial trivial fun id => .inr ⟨id, rfl⟩)
    fun _ _ _ performs => (Stock.performs_own performs).1

end BlockScript
