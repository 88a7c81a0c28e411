import BlockScript.Proofs.Moments
/-!
What a script can do to the variables of the root.

A root variable is never dropped. A new one comes from an assignment made in the root frame, or
from a global assignment made anywhere; the body of a scope or of a repetition runs in a frame of
its own, so a plain assignment in it creates nothing outside.
-/

namespace BlockScript

variable {β ε α γ : Type}

namespace Scopes

/-- A plain assignment reaches a root variable that is bound, or that it creates from the root
frame. -/
theorem WellFormed.global_set {s : Scopes} (wf : s.WellFormed) (assigned name : String)
    (value : Value) :
    Entries.value? name (s.set assigned value).globals = Entries.value? name s.globals ∨
    assigned = name ∧ Entries.value? name (s.set assigned value).globals = some value ∧
      ((Entries.value? name s.globals).isSome ∨ s.current = 0) := by
  by_cases same : assigned = name
  · subst same
    rw [set_eq_target, wf.globals_bindAt]
    by_cases root : s.target assigned = 0
    · rw [if_pos root]
      refine .inr ⟨rfl, Entries.value?_put_self assigned value _, ?_⟩
      simp only [target, wf.root_eq] at root
      split at root
      · exact .inr root
      · split at root
        · next bound => exact .inl bound
        · exact .inr root
    · rw [if_neg root]
      exact .inl rfl
  · exact .inl (s.value?_set_of_ne (Ne.symm same) value)

/-- A global assignment reaches the root variable, unless it would replace a value by null. -/
theorem WellFormed.global_setGlobal {s : Scopes} (wf : s.WellFormed) (assigned name : String)
    (value : Value) :
    Entries.value? name (s.setGlobal assigned value).globals = Entries.value? name s.globals ∨
    assigned = name ∧ Entries.value? name (s.setGlobal assigned value).globals = some value ∧
      ((Entries.value? name s.globals).isSome → value ≠ .null) := by
  by_cases same : assigned = name
  · subst same
    rw [setGlobal, wf.root_eq]
    by_cases kept : Entries.binds assigned (s.bindingsAt 0) && value.isNull
    · rw [if_pos kept]
      exact .inl rfl
    · rw [if_neg kept, wf.globals_bindAt, if_pos rfl]
      refine .inr ⟨rfl, Entries.value?_put_self assigned value _, ?_⟩
      rintro bound rfl
      exact kept (Bool.and_eq_true_iff.mpr ⟨bound, rfl⟩)
  · exact .inl (s.value?_setGlobal_of_ne (Ne.symm same) value)

/-- The root keeps its names. It gains names of two sorts: some only if the root frame is current
at the start, the others in any case. -/
structure Grown (here anywhere : String → Prop) (s t : Scopes) : Prop where
  keeps : ∀ name, Entries.binds name s.globals → Entries.binds name t.globals
  gains : ∀ name, Entries.binds name t.globals →
    Entries.binds name s.globals ∨ s.current = 0 ∧ here name ∨ anywhere name

namespace Grown

variable {here anywhere : String → Prop} {s t u : Scopes}

theorem refl (s : Scopes) : s.Grown here anywhere s :=
  ⟨fun _ bound => bound, fun _ bound => .inl bound⟩

theorem trans (h : s.Grown here anywhere t) (same : t.current = s.current)
    (k : t.Grown here anywhere u) : s.Grown here anywhere u where
  keeps name bound := k.keeps name (h.keeps name bound)
  gains name bound := by
    obtain before | new := k.gains name bound
    · exact h.gains name before
    · exact .inr (same ▸ new)

/-- Below the root frame it does not matter what the root frame would allow. -/
theorem of_openScope {other : String → Prop} (inner : s.depth ≠ 0)
    (h : s.openScope.Grown other anywhere t) : s.Grown here anywhere t where
  keeps name bound := h.keeps name (by rwa [openScope, globals_openUnder])
  gains name bound := by
    obtain before | ⟨root, -⟩ | global := h.gains name bound
    · rw [openScope, globals_openUnder] at before
      exact .inl before
    · exact absurd root inner
    · exact .inr (.inr global)

theorem closeScope (h : s.Grown here anywhere t) (previous : Nat) :
    s.Grown here anywhere (t.closeScope previous) where
  keeps name bound := by
    rw [globals_closeScope]
    exact h.keeps name bound
  gains name bound := by
    rw [globals_closeScope] at bound
    exact h.gains name bound

end Grown

end Scopes

namespace Environment

variable {env : Environment β ε}

/-- What one action does to a root variable: nothing, or it assigns it. -/
theorem perform_global {a : Action β}
    (orderly : a.Plain ∨ a = .openScope ∨ ∃ previous, a = .closeScope previous) {s : RunState}
    (wf : s.scopes.WellFormed) (w : World ε) (name : String) :
    let before := Entries.value? name s.scopes.globals
    let after := Entries.value? name (env.perform a s w).2.1.scopes.globals
    after = before ∨ ∃ value, after = some value ∧
      (a = .assign name value ∧ (before.isSome ∨ s.scopes.current = 0) ∨
        a = .assignGlobal name value ∧ (before.isSome → value ≠ .null)) := by
  intro before after
  cases a with
  | assign assigned value =>
    obtain same | ⟨rfl, new, found⟩ := wf.global_set assigned name value
    · exact .inl same
    · exact .inr ⟨value, new, .inl ⟨rfl, found⟩⟩
  | assignGlobal assigned value =>
    obtain same | ⟨rfl, new, found⟩ := wf.global_setGlobal assigned name value
    · exact .inl same
    · exact .inr ⟨value, new, .inr ⟨rfl, found⟩⟩
  | openScope => exact .inl (congrArg (Entries.value? name) (s.scopes.globals_openUnder _))
  | closeScope previous =>
    exact .inl (congrArg (Entries.value? name) (s.scopes.globals_closeScope previous))
  | stop reason block =>
    refine .inl ?_
    simp only [after, perform]
    split <;> rfl
  | spawn child presets =>
    refine .inl ?_
    simp only [after, perform]
    split <;> rfl
  | checkAbort | lookup | attach | call | reserve | crash => exact .inl rfl
  | openRootScope | wait | sleep | scopeDepth | readLog => simp [Action.Plain] at orderly

/-- A program that ends has passed through the state it ends in. -/
theorem visits_of_result {p : Program β α} {s s' : RunState} {w w' : World ε}
    {r : Except ScriptError α} (ran : env.run p s w = (.result r, s', w')) :
    env.Visits p s w s' w' := by
  induction p generalizing s w with
  | done r =>
    cases ran
    exact .here _ _ _
  | act a resume ih =>
    simp only [run] at ran
    split at ran
    · next reply t v step => exact .later step (ih reply ran)
    all_goals cases ran

theorem Reaches.visits {p q : Program β α} {s t : RunState} {w v : World ε}
    {past : List (Event β)} (h : env.Reaches p s w past q t v) : env.Visits p s w t v := by
  induction h with
  | here => exact .here _ _ _
  | later step rest ih => exact .later step ih

end Environment

namespace Action

/-- Actions that assign names of two sorts: some plainly, the others globally. -/
def Creates (here anywhere : String → Prop) (a : Action β) : Prop :=
  a.Plain ∧ (∀ name value, a = .assign name value → here name) ∧
    ∀ name value, a = .assignGlobal name value → anywhere name

end Action

namespace Program

open Environment

/-- Programs whose plain assignments outside of scopes, and whose global assignments, create root
variables of some names only. -/
structure Extends (here anywhere : String → Prop) (p : Program β α) : Prop where
  orderly : p.Orderly
  grown : ∀ {ε : Type} {env : Environment β ε} {s s' : RunState} {w w' : World ε},
    s.scopes.WellFormed → env.Visits p s w s' w' → s.scopes.Grown here anywhere s'.scopes

variable {here anywhere : String → Prop}

theorem extends_act {a : Action β} (creates : a.Creates here anywhere) :
    (perform a).Extends here anywhere where
  orderly := .act a creates.1
  grown {ε env s s' w w'} wf visit := by
    obtain rfl | rfl := visits_perform visit
    · exact .refl _
    have step := env.perform_global (.inl creates.1) wf w
    refine ⟨fun name bound => ?_, fun name bound => ?_⟩
    · obtain same | ⟨value, new, -⟩ := step name
      · rwa [Entries.binds, same]
      · rw [Entries.binds, new]
        rfl
    · obtain same | ⟨value, new, ⟨plain, found | root⟩ | ⟨global, -⟩⟩ := step name
      · rw [Entries.binds, same] at bound
        exact .inl bound
      · exact .inl found
      · exact .inr (.inl ⟨root, creates.2.1 name value plain⟩)
      · exact .inr (.inr (creates.2.2 name value global))

theorem Extends.bind {p : Program β α} {f : α → Program β γ} (first : p.Extends here anywhere)
    (rest : ∀ a, (f a).Extends here anywhere) : (p >>= f).Extends here anywhere where
  orderly := .bind first.orderly fun a => (rest a).orderly
  grown wf visit := by
    obtain one | ⟨a, t, v, ran, two⟩ := visits_bind visit
    · exact first.grown wf one
    · have kept := first.orderly.kept wf ran
      exact (first.grown wf (visits_of_result ran)).trans kept.current
        ((rest a).grown (kept.wellFormed wf) two)

/-- In a scope of its own a program creates no root variable by plain assignment. -/
theorem Extends.inScope {inner : String → Prop} {p : Program β α}
    (body : p.Extends inner anywhere) : p.inScope.Extends here anywhere where
  orderly := .inScope body.orderly
  grown wf visit := by
    have opened := wf.openUnder wf.current_lt
    have below := Nat.ne_of_gt wf.depth_pos
    obtain rfl | ⟨v, inside⟩ | ⟨r, t, v, ran, rfl⟩ := visits_inScope visit
    · exact .refl _
    · exact .of_openScope below (body.grown opened inside)
    · have inside := body.grown opened (visits_of_result ran)
      exact (Scopes.Grown.of_openScope below inside).closeScope _

theorem compositional_extends :
    Compositional (fun _ (p : Program β _) => p.Extends here anywhere)
      (Action.Creates here anywhere) where
  done r := ⟨.done r, fun _ visit => by rw [visits_done visit]; exact .refl _⟩
  act _ creates := extends_act creates
  bind := Extends.bind
  inScope := Extends.inScope

end Program

namespace Stock

variable {header : Header β} {k : Stock} {name : String} {value : Value}

theorem performs_assign (h : k.Performs header (.assign name value)) :
    k = .setVariable ∧ Kinds.variableName header = .ok name := by
  cases k <;> simp_all [Performs]

theorem performs_assignGlobal (h : k.Performs header (.assignGlobal name value)) :
    k = .setGlobal ∧ Kinds.variableName header = .ok name := by
  cases k <;> simp_all [Performs]

/-- The kinds that run the statements in `DO` in a frame of their own. -/
def Encloses (k : Stock) : Prop :=
  k = .scope ∨ k = .repetition

end Stock

namespace Block

/-- The blocks of a tree that lie in no body with a frame of its own. -/
inductive Exposes : Block Stock → Block Stock → Prop
  | self (b : Block Stock) : Exposes b b
  | input {b c d : Block Stock} {slot : String}
      (outside : ¬(b.header.behavior.Encloses ∧ slot = "DO")) (plugged : b.input? slot = some c)
      (inner : Exposes c d) : Exposes b d
  | next {b c d : Block Stock} (follows : b.next = some c) (later : Exposes c d) : Exposes b d

/-- A block assigns a name, plainly or globally as its kind says. -/
def Assigns (kind : Stock) (b : Block Stock) (name : String) : Prop :=
  b.header.behavior = kind ∧ Kinds.variableName b.header = .ok name

/-- The names for which a tree can create root variables. -/
def Creates (b : Block Stock) (name : String) : Prop :=
  (∃ d, b.Exposes d ∧ d.Assigns .setVariable name) ∨ ∃ d, b.Contains d ∧ d.Assigns .setGlobal name

end Block

namespace Kinds

open Program

variable {here anywhere inner : String → Prop} {inputs : Inputs β}

theorem creates_checkAbort : (Action.checkAbort : Action β).Creates here anywhere := by
  simp [Action.Creates, Action.Plain]

theorem iterate_extends (body : (inputs.statements "DO").Extends inner anywhere) (times : Nat)
    (last : Value) : (iterate inputs times last).Extends here anywhere := by
  induction times generalizing last with
  | zero => exact compositional_extends.done _
  | succ times ih =>
    exact (extends_act creates_checkAbort).bind fun _ => body.inScope.bind fun v => ih v

theorem repeatBlock_extends (header : Header β)
    (times : (inputs.required header "TIMES").Extends here anywhere)
    (body : (inputs.statements "DO").Extends inner anywhere) :
    (repeatBlock header inputs).Extends here anywhere := by
  unfold repeatBlock
  split
  · exact compositional_extends.lift _ fun x _ => iterate_extends body (timesOf x) .null
  · exact times.bind fun v => compositional_extends.lift _ fun x _ =>
      iterate_extends body (timesOf x) .null

end Kinds

open Program

/-- The statements in `DO` of a kind that runs them in a frame of its own may assign any name; all
other inputs, and the block itself, are as free as the block is. -/
theorem Stock.program_extends {here anywhere inner : String → Prop} (k : Stock) (header : Header β)
    {inputs : Inputs β} (inside : inputs.Hold fun _ p => p.Extends inner anywhere)
    (outside : ∀ slot p, ¬(k.Encloses ∧ slot = "DO") → Entries.value? slot inputs = some p →
      p.Extends here anywhere)
    (own : ∀ a, k.Performs header a → a.Creates here anywhere) :
    (k.program header inputs).Extends here anywhere := by
  have c : Compositional (fun _ (p : Program β _) => p.Extends here anywhere)
      (Action.Creates here anywhere) := compositional_extends
  by_cases encloses : k.Encloses
  · have body := inside.statements compositional_extends "DO"
    obtain rfl | rfl := encloses
    · exact body.inScope
    · refine Kinds.repeatBlock_extends header ?_ body
      unfold Inputs.required
      split
      · next p hp => exact outside "TIMES" p (by simp) hp
      · exact c.done _
  · refine k.program_holds c ?_ header ?_ own
    · intro _ name presets
      exact c.spawnChild Kinds.creates_checkAbort (by simp [Action.Creates, Action.Plain])
        fun id => by simp [Action.Creates, Action.Plain, Log.Modifier.Stocked]
    · intro slot p hp
      exact outside slot p (fun enclosed => encloses enclosed.1) hp

namespace Block

theorem program_extends (b : Block Stock) {here anywhere : String → Prop}
    (plain : ∀ d name, b.Exposes d → d.Assigns .setVariable name → here name)
    (global : ∀ d name, b.Contains d → d.Assigns .setGlobal name → anywhere name) :
    b.program.Extends here anywhere := by
  induction b using Block.induct generalizing here with
  | step h inputs next inner after =>
    have c : Compositional (fun _ (p : Program Stock _) => p.Extends here anywhere)
        (Action.Creates here anywhere) := compositional_extends
    have inside : (program.inputPrograms inputs).Hold
        fun _ p => p.Extends (fun _ => True) anywhere := by
      intro slot p hp
      rw [value?_inputPrograms, Option.map_eq_some_iff] at hp
      obtain ⟨b, hb, rfl⟩ := hp
      exact inner slot b hb (fun _ _ _ _ => trivial) fun d name within =>
        global d name (.input hb within)
    have own : (Block.mk h inputs next).own.Extends here anywhere := by
      refine h.behavior.program_extends h inside ?_ ?_
      · intro slot p free hp
        rw [value?_inputPrograms, Option.map_eq_some_iff] at hp
        obtain ⟨b, hb, rfl⟩ := hp
        exact inner slot b hb (fun d name exposed => plain d name (.input free hb exposed))
          fun d name within => global d name (.input hb within)
      · intro a performs
        refine ⟨(Stock.performs_own performs).1, ?_, ?_⟩
        · rintro name value rfl
          exact plain _ name (.self _) (Stock.performs_assign performs)
        · rintro name value rfl
          exact global _ name (.self _) (Stock.performs_assignGlobal performs)
    refine chain_holds c (.mk h inputs next) ?_ own ?_ ?_
    · exact c.enter Kinds.creates_checkAbort (by simp [Action.Creates, Action.Plain])
    · exact c.act _ (by simp [Action.Creates, Action.Plain])
    · intro n follows
      exact after n follows (fun d name exposed => plain d name (.next follows exposed))
        fun d name within => global d name (.next follows within)

/-- An action assigns nothing, or what a block of the tree assigns. -/
def Accounts (b : Block Stock) (a : Action Stock) : Prop :=
  (∀ name value, a = .assign name value → ∃ d, b.Contains d ∧ d.Assigns .setVariable name) ∧
    ∀ name value, a = .assignGlobal name value → ∃ d, b.Contains d ∧ d.Assigns .setGlobal name

theorem program_accounts (b : Block Stock) : b.program.All b.Accounts := by
  have c : Compositional (fun _ (p : Program Stock _) => p.All b.Accounts) b.Accounts :=
    compositional_all (by simp [Accounts]) (by simp [Accounts])
  refine b.program_holds c ?_ ?_ ?_ ?_
  · intro d
    exact c.enter (by simp [Accounts]) (by simp [Accounts])
  · intro d
    exact c.act (.stop .leave d) (by simp [Accounts])
  · intro d _ _ name presets
    exact c.spawnChild (by simp [Accounts]) (by simp [Accounts]) (by simp [Accounts])
  · intro d inside a performs
    constructor
    · rintro name value rfl
      exact ⟨d, inside, Stock.performs_assign performs⟩
    · rintro name value rfl
      exact ⟨d, inside, Stock.performs_assignGlobal performs⟩

end Block

namespace Script

variable {script : Script Stock} {env : Environment Stock ε} {w : World ε}

theorem visits_grown {s : RunState} {v : World ε}
    (visit : env.Visits script.root.program (script.initial env w) (script.limited w) s v) :
    (∀ name, Entries.binds name env.site.presets → Entries.binds name s.scopes.globals) ∧
    ∀ name, Entries.binds name s.scopes.globals →
      Entries.binds name env.site.presets ∨ script.root.Creates name := by
  have creates : script.root.program.Extends
      (fun name => ∃ d, script.root.Exposes d ∧ d.Assigns .setVariable name)
      (fun name => ∃ d, script.root.Contains d ∧ d.Assigns .setGlobal name) :=
    script.root.program_extends (fun d _ exposed assigns => ⟨d, exposed, assigns⟩)
      fun d _ inside assigns => ⟨d, inside, assigns⟩
  have grown := creates.grown (script.wellFormed_initial env w) visit
  refine ⟨grown.keeps, fun name bound => ?_⟩
  obtain preset | ⟨-, plain⟩ | global := grown.gains name bound
  · exact .inl preset
  · exact .inr (.inl plain)
  · exact .inr (.inr global)

/-- What a run leaves is what the root held in one of the states the run passed through. -/
theorem run_globals_visited {w' : World ε} {run : Run}
    (ended : script.run env w = some (run, w')) :
    ∃ s v, env.Visits script.root.program (script.initial env w) (script.limited w) s v ∧
      run.globals = s.scopes.globals := by
  obtain ⟨evaluated, s, v, finish, u, root, -, left⟩ := run_parts ended
  have globals : run.globals = s.scopes.globals := by
    rw [← (Prod.mk.inj left).1]
  obtain ⟨x, ran⟩ | ⟨t, x, ran, -, rfl⟩ := evaluateRoot_ran root
  · exact ⟨s, x, Environment.visits_of_result ran, globals⟩
  · obtain ⟨y, visit⟩ := Environment.run_cut_visits ran
    exact ⟨t, y, visit, globals.trans t.scopes.globals_unwind⟩

end Script

/-- In every state a run passes through, and at its end, the root binds the presets, and otherwise
only names that global assignments in the tree create, or plain ones outside the bodies of scopes
and repetitions. Each action leaves a root variable as it is or gives it the value that a block of
the tree assigns to it, which in a global assignment replaces no value by null. -/
theorem root_variables_only_grow (script : Script Stock) (env : Environment Stock ε)
    (w : World ε) :
    (∀ s v, env.Visits script.root.program (script.initial env w) (script.limited w) s v →
      (∀ name, Entries.binds name env.site.presets → Entries.binds name s.scopes.globals) ∧
      ∀ name, Entries.binds name s.scopes.globals →
        Entries.binds name env.site.presets ∨ script.root.Creates name) ∧
    (∀ past a s v,
      env.Meets script.root.program (script.initial env w) (script.limited w) past a s v →
      ∀ name,
        let before := Entries.value? name s.scopes.globals
        let after := Entries.value? name (env.perform a s v).2.1.scopes.globals
        after = before ∨ ∃ value d, after = some value ∧ script.root.Contains d ∧
          (a = .assign name value ∧ d.Assigns .setVariable name ∨
            a = .assignGlobal name value ∧ d.Assigns .setGlobal name ∧
              (before.isSome → value ≠ .null))) ∧
    ∀ run w', script.run env w = some (run, w') →
      (∀ name, Entries.binds name env.site.presets → Entries.binds name run.globals) ∧
      (∀ name, Entries.binds name run.globals →
        Entries.binds name env.site.presets ∨ script.root.Creates name) ∧
      ∃ s v, env.Visits script.root.program (script.initial env w) (script.limited w) s v ∧
        run.globals = s.scopes.globals := by
  refine ⟨fun s v visit => Script.visits_grown visit, ?_, ?_⟩
  · rintro past a s v ⟨resume, reached⟩ name before after
    have wf := script.root.program_orderly.visits_wellFormed (script.wellFormed_initial env w)
      reached.visits
    have orderly := (reached.all script.root.program_orderly.all).1
    obtain ⟨plain, global⟩ := (reached.all script.root.program_accounts).1
    obtain same | ⟨value, new, ⟨rfl, -⟩ | ⟨rfl, kept⟩⟩ := env.perform_global orderly wf v name
    · exact .inl same
    · obtain ⟨d, inside, assigns⟩ := plain name value rfl
      exact .inr ⟨value, d, new, inside, .inl ⟨rfl, assigns⟩⟩
    · obtain ⟨d, inside, assigns⟩ := global name value rfl
      exact .inr ⟨value, d, new, inside, .inr ⟨rfl, assigns, kept⟩⟩
  · intro run w' ended
    obtain ⟨s, v, visit, eq⟩ := Script.run_globals_visited ended
    have grown := Script.visits_grown visit
    rw [eq]
    exact ⟨grown.1, grown.2, s, v, visit, rfl⟩

/-- A scope that assigns a name of its own, a preset and a new global, and a null assigned to the
preset globally after it. -/
def mixedAssignments : Block Stock :=
  .mk ⟨"controls_scope", none, .scope, [], []⟩
    [("DO", plain "local" (some (plain "preset" (some (global "made" (text "new") none)))))]
    (some (global "preset" (.mk ⟨"logic_null", none, .null, [], []⟩ [] none) none))
where
  text (s : String) : Block Stock :=
    .mk ⟨"text", none, .text, [("TEXT", .string s)], []⟩ [] none
  plain (name : String) (next : Option (Block Stock)) : Block Stock :=
    .mk ⟨"variables_set", none, .setVariable, [("VAR", .string name)], []⟩
      [("VALUE", text "changed")] next
  global (name : String) (value : Block Stock) (next : Option (Block Stock)) : Block Stock :=
    .mk ⟨"variables_set_global", none, .setGlobal, [("VAR", .string name)], []⟩
      [("VALUE", value)] next

/-- Of the three names assigned in the scope the root gains the global one and not the local one,
and the preset keeps what was assigned to it plainly. -/
theorem local_stays_in_its_scope :
    let script : Script Stock := ⟨mixedAssignments, {}⟩
    let env : Environment Stock Unit :=
      { site := .bare [("preset", .string "given")], debugger := none, aborted := fun _ => false,
        abort := fun e => e, react := fun e => e }
    let w : World Unit := { peers := (), origin := ⟨0, 0⟩ }
    ∃ run w', script.run env w = some (run, w') ∧
      run.globals.map (fun e => (e.1, e.2.text)) = [("made", "new"), ("preset", "changed")] ∧
      Entries.binds "preset" run.globals ∧ mixedAssignments.Creates "made" := by
  intro script env w
  have left : (script.run env w).map
      (fun x => (x.1.globals.map (fun e => (e.1, e.2.text)), Entries.binds "made" x.1.globals)) =
      some ([("made", "new"), ("preset", "changed")], true) := by
    decide +kernel
  obtain ⟨⟨run, w'⟩, ended, globals⟩ := Option.map_eq_some_iff.mp left
  obtain ⟨texts, made⟩ := Prod.mk.inj globals
  obtain ⟨kept, gained, -⟩ := (root_variables_only_grow script env w).2.2 run w' ended
  refine ⟨run, w', ended, texts, kept "preset" rfl, ?_⟩
  obtain preset | created := gained "made" made
  · exact absurd preset (by decide)
  · exact created

end BlockScript
