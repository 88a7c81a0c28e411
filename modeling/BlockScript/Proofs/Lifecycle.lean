import BlockScript.Script
/-!
A run in its parts: the evaluation of the root chain, the last interception, and what is left
behind.
-/

namespace BlockScript

variable {β ε α : Type}

namespace Environment

variable (env : Environment β ε)

/-- What waiting comes to once the collaborators have moved. -/
def settle (raced : Bool) (due : Option (Nat × Except ScriptError α))
    (ready : ε → Option (Except ScriptError α × ε)) (w : World ε) : Ending α × World ε :=
  if raced && env.aborted w.peers then (.result (.error .aborted), w)
  else
    match ready w.peers with
    | some (r, peers) => (.result r, { w with peers })
    | none =>
      let w := env.passAbort (due.map Prod.fst) w
      if raced && env.aborted w.peers then (.result (.error .aborted), w)
      else passTime due w

theorem suspend_eq_settle (raced : Bool) (due : Option (Nat × Except ScriptError α))
    (ready : ε → Option (Except ScriptError α × ε)) (w : World ε) :
    env.suspend raced due ready w =
      if w.deadline.any (· ≤ w.now) then (.cut, w)
      else env.settle raced due ready { w with peers := env.react w.peers } := rfl

end Environment

namespace Run

theorem value_eq_some_iff {r : Run} {v : Value} : r.value = some v ↔ r.result = .ok v := by
  unfold value
  cases r.result <;> simp

theorem error_eq_some_iff {r : Run} {e : ScriptError} :
    r.error = some e ↔ r.result = .error e := by
  unfold error
  cases r.result <;> simp

theorem result_of_error {r : Run} {e : ScriptError} (h : r.error = some e) : r.result = .error e :=
  error_eq_some_iff.mp h

end Run

namespace Script

variable (script : Script β) (env : Environment β ε)

/-- What the end of the root chain comes to, once the deadline is lifted. -/
def conclude {ζ : Type} (x : Ending Value × RunState × World ζ) :
    Option (Except ScriptError Value × RunState × World ζ) :=
  match x with
  | (.result r, s, w) => some (r, s, { w with deadline := none })
  | (.cut, s, w) =>
    some (.error (.timeout (script.settings.timeout.getD 0)),
      { s with scopes := s.scopes.unwind }, { w with deadline := none })
  | (.stuck, _, _) | (.crash, _, _) => none

/-- What was waited for, if it came. -/
def arrived {ζ : Type} (x : Ending Unit × World ζ) : Option (Except ScriptError Unit × World ζ) :=
  match x with
  | (.result r, w) => some (r, w)
  | _ => none

theorem interceptFinish_eq_arrived {d : Debugger β ε} (watched : env.debugger = some d)
    (s : RunState) (w : World ε) :
    script.interceptFinish env s w =
      arrived (env.await false (d.intercept .finish script.root s.scopes w.peers).1
        { w with peers := (d.intercept .finish script.root s.scopes w.peers).2 }) := by
  simp only [interceptFinish, watched]
  rfl

/-- The result of a run: a failing last interception counts only when nothing failed before. -/
def outcomeOf (evaluated : Except ScriptError Value) (finish : Except ScriptError Unit) :
    Except ScriptError Value :=
  match evaluated, finish with
  | .ok _, .error e => .error e
  | r, _ => r

/-- What a run leaves behind, from the end of its evaluation and of its last interception. -/
def leave (evaluated : Except ScriptError Value) (s : RunState) (finish : Except ScriptError Unit)
    (w : World ε) : Run × World ε :=
  let result := outcomeOf evaluated finish
  let w := notifyFinished env result w
  ({ result, log := closeLog s result w.moment, globals := s.scopes.globals }, w)

variable [Behavior β]

theorem evaluateRoot_eq_conclude (s : RunState) (w : World ε) :
    script.evaluateRoot env s w =
      script.conclude (env.run script.root.program s (script.limited w)) := rfl

/-- A root chain that comes to something has run to its end, or was cut off. -/
theorem evaluateRoot_ran {script : Script β} {env : Environment β ε} {s t : RunState}
    {w v : World ε} {evaluated : Except ScriptError Value}
    (root : script.evaluateRoot env s w = some (evaluated, t, v)) :
    (∃ u, env.run script.root.program s (script.limited w) = (.result evaluated, t, u)) ∨
    ∃ t' u, env.run script.root.program s (script.limited w) = (.cut, t', u) ∧
      evaluated = .error (.timeout (script.settings.timeout.getD 0)) ∧
      t = { t' with scopes := t'.scopes.unwind } := by
  rw [evaluateRoot_eq_conclude] at root
  rcases ran : env.run script.root.program s (script.limited w) with ⟨ending, t', u⟩
  rw [ran] at root
  cases ending with
  | result r =>
    cases root
    exact .inl ⟨u, rfl⟩
  | cut =>
    cases root
    exact .inr ⟨t', u, rfl, rfl, rfl⟩
  | stuck | crash => cases root

theorem run_eq (w : World ε) :
    script.run env w = (script.evaluateRoot env (script.initial env w) w).bind fun x =>
      (script.interceptFinish env x.2.1 x.2.2).map fun y => leave env x.1 x.2.1 y.1 y.2 := by
  change Option.bind (script.evaluateRoot env (script.initial env w) w) _ = _
  cases script.evaluateRoot env (script.initial env w) w with
  | none => rfl
  | some x =>
    change Option.bind (script.interceptFinish env x.2.1 x.2.2) _ = _
    cases h : script.interceptFinish env x.2.1 x.2.2 with
    | none => simp [h]
    | some y => simp [h]; rfl

theorem crashes_iff {script : Script β} {env : Environment β ε} {w : World ε} :
    script.crashes env w ↔ ∃ s v,
      env.run script.root.program (script.initial env w) (script.limited w) = (.crash, s, v) := by
  rw [crashes, crashesFrom]
  generalize env.run script.root.program (script.initial env w) (script.limited w) = x
  obtain ⟨ending, s, v⟩ := x
  cases ending <;> simp [Ending.isCrash]

/-- Nothing comes back from a run that crashes. -/
theorem run_of_crashes {script : Script β} {env : Environment β ε} {w : World ε}
    (crashes : script.crashes env w) : script.run env w = none := by
  obtain ⟨s, v, crashed⟩ := crashes_iff.mp crashes
  rw [run_eq, evaluateRoot_eq_conclude, crashed]
  rfl

/-- A run that ends has gone through all its parts. -/
theorem run_parts {script : Script β} {env : Environment β ε} {w w' : World ε} {r : Run}
    (ended : script.run env w = some (r, w')) :
    ∃ evaluated s v finish u,
      script.evaluateRoot env (script.initial env w) w = some (evaluated, s, v) ∧
      script.interceptFinish env s v = some (finish, u) ∧
      leave env evaluated s finish u = (r, w') := by
  rw [run_eq] at ended
  obtain ⟨⟨evaluated, s, v⟩, root, rest⟩ := Option.bind_eq_some_iff.mp ended
  obtain ⟨⟨finish, u⟩, last, left⟩ := Option.map_eq_some_iff.mp rest
  exact ⟨evaluated, s, v, finish, u, root, last, left⟩

theorem evaluate_eq (presets : Bindings) (w : World ε) :
    script.evaluate env presets w =
      (script.evaluateRoot { env with debugger := none, aborted := fun _ => false }
        (script.initialOver presets w) w).map fun x => (x.1, x.2.2) := by
  change Option.bind (script.evaluateRoot { env with debugger := none, aborted := fun _ => false }
    (script.initialOver presets w) w) _ = _
  cases script.evaluateRoot { env with debugger := none, aborted := fun _ => false }
    (script.initialOver presets w) w <;> rfl

end Script

end BlockScript
