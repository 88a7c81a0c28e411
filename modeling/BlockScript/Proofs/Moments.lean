import BlockScript.Proofs.Events
import BlockScript.Proofs.RunRecords
/-!
The moments of a run.

At each moment something of the program is left to run, after what happened before. When an action
fails, all that is left of a chain of standard blocks is to close its scopes and to fail with that
error; so the action is the last thing that happens in the run.
-/

namespace BlockScript

variable {β ε α γ : Type}

namespace Environment

/-- The moments a program passes through: what happened before, what is left to run, the state and
the world. -/
inductive Reaches (env : Environment β ε) {α : Type} : Program β α → RunState → World ε →
    List (Event β) → Program β α → RunState → World ε → Prop
  | here (p : Program β α) (s : RunState) (w : World ε) : Reaches env p s w [] p s w
  | later {a : Action β} {resume : Except ScriptError a.Reply → Program β α} {s t s' : RunState}
      {w v w' : World ε} {reply : Except ScriptError a.Reply} {past : List (Event β)}
      {q : Program β α} (step : env.perform a s w = (.result reply, t, v))
      (rest : Reaches env (resume reply) t v past q s' w') :
      Reaches env (.act a resume) s w (env.events a s w ++ past) q s' w'

/-- A program comes to an action. -/
def Meets (env : Environment β ε) (p : Program β α) (s : RunState) (w : World ε)
    (past : List (Event β)) (a : Action β) (t : RunState) (v : World ε) : Prop :=
  ∃ resume, env.Reaches p s w past (.act a resume) t v

variable {env : Environment β ε} {p q : Program β α} {s t : RunState} {w v : World ε}
  {past : List (Event β)}

namespace Reaches

theorem run_eq (h : env.Reaches p s w past q t v) : env.run p s w = env.run q t v := by
  induction h with
  | here => rfl
  | later step rest ih =>
    simp only [run, step]
    exact ih

theorem history_eq (h : env.Reaches p s w past q t v) :
    env.history p s w = past ++ env.history q t v := by
  induction h with
  | here => rfl
  | later step rest ih => simp only [history, step, ih, List.append_assoc]

theorem trans {r : Program β α} {u : RunState} {x : World ε} {more : List (Event β)}
    (h : env.Reaches p s w past q t v) (k : env.Reaches q t v more r u x) :
    env.Reaches p s w (past ++ more) r u x := by
  induction h with
  | here => exact k
  | later step rest ih =>
    rw [List.append_assoc]
    exact .later step (ih k)

/-- Of two moments of a run one comes first. -/
theorem total {q' : Program β α} {t' : RunState} {v' : World ε} {past' : List (Event β)}
    (h : env.Reaches p s w past q t v) (k : env.Reaches p s w past' q' t' v') :
    (∃ more, past' = past ++ more ∧ env.Reaches q t v more q' t' v') ∨
    ∃ more, past = past' ++ more ∧ env.Reaches q' t' v' more q t v := by
  induction h generalizing past' with
  | here => exact .inl ⟨past', rfl, k⟩
  | later step rest ih =>
    cases k with
    | here => exact .inr ⟨_, rfl, .later step rest⟩
    | later step' rest' =>
      rw [step] at step'
      cases step'
      obtain ⟨more, rfl, after⟩ | ⟨more, rfl, after⟩ := ih rest'
      · exact .inl ⟨more, (List.append_assoc _ _ _).symm, after⟩
      · exact .inr ⟨more, (List.append_assoc _ _ _).symm, after⟩

theorem all {P : Action β → Prop} (h : env.Reaches p s w past q t v) (every : p.All P) :
    q.All P := by
  induction h with
  | here => exact every
  | later step rest ih => exact ih (every.2 _)

end Reaches

/-- A program that is cut off is cut off at some action, and ends with what that action tells. -/
theorem exists_meets_of_cut (cut : env.run p s w = (.cut, t, v)) :
    ∃ past a u, env.Meets p s w past a t u ∧ env.perform a t u = (.cut, t, v) := by
  induction p generalizing s w with
  | done r => cases cut
  | act a resume ih =>
    simp only [run] at cut
    split at cut
    · next reply s' w' step =>
      obtain ⟨past, b, u, ⟨rest, reached⟩, stopped⟩ := ih reply cut
      exact ⟨_, b, u, ⟨rest, .later step reached⟩, stopped⟩
    · next step =>
      cases cut
      obtain rfl := perform_cut step
      exact ⟨[], a, w, ⟨resume, .here _ _ _⟩, step⟩
    all_goals cases cut

theorem Meets.cut {a : Action β} {t' : RunState} {v' : World ε} (h : env.Meets p s w past a t v)
    (stopped : env.perform a t v = (.cut, t', v')) :
    env.run p s w = (.cut, t', v') ∧ env.history p s w = past ++ env.events a t v := by
  obtain ⟨resume, reached⟩ := h
  rw [reached.run_eq, reached.history_eq]
  simp only [run, history, stopped, List.append_nil, and_self]

end Environment

namespace Program

/-- Nothing is left but to close scopes and to fail. -/
inductive FailsWith (e : ScriptError) : Program β α → Prop
  | done : FailsWith e (.done (.error e))
  | close {previous : Nat} {resume : Except ScriptError Unit → Program β α}
      (rest : FailsWith e (resume (.ok ()))) : FailsWith e (.act (.closeScope previous) resume)

/-- When an action fails, nothing is left but to close scopes and to fail like it. -/
def Relays : Program β α → Prop
  | .done _ => True
  | .act a resume =>
    ((∀ previous, a ≠ .closeScope previous) → ∀ e, (resume (.error e)).FailsWith e) ∧
      ∀ reply, (resume reply).Relays

theorem FailsWith.bind {e : ScriptError} {p : Program β α} (h : p.FailsWith e)
    (f : α → Program β γ) : (p.bind f).FailsWith e := by
  induction h with
  | done => exact .done
  | close rest ih => exact .close ih

theorem FailsWith.closing {e : ScriptError} {p : Program β α} (h : p.FailsWith e)
    (previous : Nat) : (p.closing previous).FailsWith e := by
  induction h with
  | done => exact .close .done
  | close rest ih => exact .close ih

theorem Relays.bind {p : Program β α} {f : α → Program β γ} (first : p.Relays)
    (rest : ∀ a, (f a).Relays) : (p >>= f).Relays := by
  change (p.bind f).Relays
  induction p with
  | done r =>
    cases r with
    | ok a => exact rest a
    | error e => trivial
  | act a resume ih =>
    exact ⟨fun other e => (first.1 other e).bind f, fun reply => ih reply (first.2 reply)⟩

theorem Relays.closing {p : Program β α} (h : p.Relays) (previous : Nat) :
    (p.closing previous).Relays := by
  induction p with
  | done r => exact ⟨fun other => absurd rfl (other previous), fun _ => trivial⟩
  | act a resume ih =>
    exact ⟨fun other e => (h.1 other e).closing previous, fun reply => ih reply (h.2 reply)⟩

theorem relays_perform (a : Action β) : (perform a).Relays :=
  ⟨fun _ _ => .done, fun _ => trivial⟩

theorem compositional_relays :
    Compositional (fun _ (p : Program β _) => p.Relays) fun _ => True where
  done _ := trivial
  act a _ := relays_perform a
  bind := Relays.bind
  inScope body := (relays_perform .openScope).bind fun previous => body.closing previous

theorem FailsWith.run {e : ScriptError} {p : Program β α} (h : p.FailsWith e)
    (env : Environment β ε) (s : RunState) (w : World ε) :
    (∃ t, env.run p s w = (.result (.error e), t, w)) ∧ env.history p s w = [] := by
  induction h generalizing s with
  | done => exact ⟨⟨s, rfl⟩, rfl⟩
  | @close previous resume rest ih =>
    obtain ⟨ran, quiet⟩ := ih { s with scopes := s.scopes.closeScope previous }
    refine ⟨ran, ?_⟩
    simp only [Environment.history, Environment.perform, Environment.events, Environment.notices,
      Environment.effects, ite_self, List.map_nil, List.nil_append]
    exact quiet

end Program

theorem Block.program_relays (b : Block Stock) : b.program.Relays := by
  have c : Program.Compositional (fun _ (p : Program Stock _) => p.Relays) fun _ => True :=
    Program.compositional_relays
  exact b.program_holds c (fun _ => c.enter trivial trivial)
    (fun b => c.act (.stop .leave b) trivial)
    (fun _ _ _ _ _ => c.spawnChild trivial trivial fun _ => trivial)
    fun _ _ _ _ => trivial

namespace Environment

variable {env : Environment β ε} {p q : Program β α} {s t : RunState} {w v : World ε}
  {past : List (Event β)}

theorem Reaches.relays (h : env.Reaches p s w past q t v) (relays : p.Relays) : q.Relays := by
  induction h with
  | here => exact relays
  | later step rest ih => exact ih (relays.2 _)

theorem Reaches.failsWith {e : ScriptError} (h : env.Reaches p s w past q t v)
    (failing : p.FailsWith e) : q.FailsWith e := by
  induction h with
  | here => exact failing
  | later step rest ih =>
    cases failing with
    | close left =>
      cases step
      exact ih left

/-- An action that fails is the last thing that happens. -/
theorem Meets.fails {a : Action β} {t' : RunState} {v' : World ε} {e : ScriptError}
    (relays : p.Relays) (h : env.Meets p s w past a t v)
    (failed : env.perform a t v = (.result (.error e), t', v')) :
    (∃ u, env.run p s w = (.result (.error e), u, v')) ∧
      env.history p s w = past ++ env.events a t v := by
  obtain ⟨resume, reached⟩ := h
  have other (previous : Nat) : a ≠ .closeScope previous := by
    rintro rfl
    cases failed
  obtain ⟨ran, quiet⟩ := ((reached.relays relays).1 other e).run env t' v'
  rw [reached.run_eq, reached.history_eq]
  simp only [run, history, failed, quiet, List.append_nil, and_true]
  exact ran

end Environment

namespace Run

/-- A run leaves the root bindings and the decorated record of a footprint. -/
structure Leaves (run : Run) (f : Footprint) : Prop where
  globals : run.globals = f.globals
  annotations : run.log.annotations = f.log.annotations
  children : run.log.children = f.log.children
  modifiers : run.log.modifiers = f.log.modifiers

end Run

namespace Script

/-- What happens while the root chain of a script is evaluated. -/
def history [Behavior β] (script : Script β) (env : Environment β ε) (w : World ε) :
    List (Event β) :=
  env.history script.root.program (script.initial env w) (script.limited w)

variable {script : Script Stock} {env : Environment Stock ε} {w w' : World ε} {run : Run}

/-- A run leaves the marks of its history, whether its root chain came to an end or was cut off. -/
theorem evaluateRoot_footprint {v : World ε} {evaluated : Except ScriptError Value} {s : RunState}
    (root : script.evaluateRoot env (script.initial env w) w = some (evaluated, s, v)) :
    s.footprint =
      (script.history env w).foldl Event.mark (script.initial env w).footprint := by
  have marks := script.root.program_orderly.footprint env (script.wellFormed_initial env w)
    (script.limited w)
  obtain ⟨u, ran⟩ | ⟨t, u, ran, -, rfl⟩ := evaluateRoot_ran root
  · rw [ran] at marks
    exact marks
  · rw [ran] at marks
    refine Eq.trans ?_ marks
    simp only [RunState.footprint, Scopes.globals_unwind]

/-- A run that ends: what happened before its last interception, that whoever watches was told this,
then of the last interception and then that the run is over, and what the run leaves. -/
structure Accounts (script : Script Stock) (env : Environment Stock ε) (w : World ε)
    (past : List (Event Stock)) (run : Run) : Prop where
  history : script.history env w = past
  ended : ∃ (w' : World ε) (scopes : Scopes), script.run env w = some (run, w') ∧
    script.run env.recorded (w.beside []) = some (run, w'.beside
      (past.filterMap Event.notice? ++ script.lastNews env scopes run.error))
  during : ∀ n ∈ past.filterMap Event.notice?, n.During
  leaves : run.Leaves (past.foldl Event.mark (script.initial env w).footprint)

theorem run_accounts (ended : script.run env w = some (run, w')) :
    script.Accounts env w (script.history env w) run where
  history := rfl
  ended := by
    obtain ⟨evaluated, s, v, -, recorded⟩ := script.run_tells env ended []
    rw [List.nil_append, env.news_eq_history] at recorded
    exact ⟨w', s.scopes, ended, recorded⟩
  during := by
    intro n told
    rw [history, ← env.news_eq_history] at told
    exact script.root.program_orderly.during n told
  leaves := by
    obtain ⟨evaluated, s, v, time, root, log⟩ := run_log ended
    obtain ⟨evaluated', s', v', finish, u, root', -, left⟩ := run_parts ended
    rw [root, Option.some.injEq, Prod.mk.injEq, Prod.mk.injEq] at root'
    obtain ⟨rfl, rfl, rfl⟩ := root'
    have globals : run.globals = s.scopes.globals := by
      rw [← (Prod.mk.inj left).1]
    rw [← evaluateRoot_footprint root]
    exact ⟨globals, by rw [log]; rfl, by rw [log]; rfl, by rw [log]; rfl⟩

/-- A root chain that fails gives the run its error, whatever the last interception comes to. -/
theorem accounts_of_failed (concludes : env.Concludes) {s : RunState} {v : World ε}
    {e : ScriptError} {past : List (Event Stock)} (happened : script.history env w = past)
    (root : script.evaluateRoot env (script.initial env w) w = some (.error e, s, v)) :
    ∃ run, run.error = some e ∧ script.Accounts env w past run := by
  obtain ⟨finish, run, w', ended, result⟩ := run_of_evaluated concludes root
  exact ⟨run, Run.error_eq_some_iff.mpr result, happened ▸ run_accounts ended⟩

end Script

end BlockScript
