import BlockScript.Proofs.Recording
import BlockScript.Proofs.Waiting
/-!
How a run ends, as its record says and as its debugger is told.

Nothing a standard block attaches closes the record of its run, so the record is still open when
the root chain and the last interception are over, and takes down what they came to.
-/

namespace BlockScript

variable {β ε α : Type}

namespace Log

/-- Attaching a stock modifier touches the decoration of a record alone. -/
theorem attach_decorates {m : Modifier} (stocked : m.Stocked) (r : LogRecord) :
    ∃ annotations children modifiers,
      (attach m r).2 = { r with annotations, children, modifiers } := by
  unfold attach
  split
  · exact ⟨_, _, _, rfl⟩
  · obtain ⟨key, value, rfl⟩ | ⟨id, rfl⟩ := stocked
    · exact ⟨_, _, _, rfl⟩
    · simp only [Modifier.childScript, LogRecord.linkChild, Bool.false_eq_true, ↓reduceIte]
      split <;> exact ⟨_, _, _, rfl⟩

/-- Attaching a stock modifier never finishes a record. -/
theorem attach_finished {m : Modifier} (stocked : m.Stocked) (r : LogRecord) :
    (attach m r).2.finished = r.finished := by
  obtain ⟨_, _, _, eq⟩ := attach_decorates stocked r
  rw [eq]

end Log

namespace Environment

variable {env : Environment β ε}

/-- Only an attachment touches the record of a run. -/
theorem perform_log {a : Action β}
    (usual : a.Plain ∨ a = .openScope ∨ ∃ previous, a = .closeScope previous) (s : RunState)
    (w : World ε) :
    (env.perform a s w).2.1.log = s.log ∨
    ∃ m, a = .attach m ∧ m.Stocked ∧ (env.perform a s w).2.1.log = (Log.attach m s.log).2 := by
  obtain plain | rfl | ⟨previous, rfl⟩ := usual
  · cases a with
    | attach m => exact .inr ⟨m, rfl, plain, rfl⟩
    | stop reason block =>
      simp only [perform]
      split <;> exact .inl rfl
    | spawn name presets =>
      simp only [perform]
      split <;> exact .inl rfl
    | checkAbort | lookup | assign | assignGlobal | call | reserve | crash => exact .inl rfl
    | openScope | openRootScope | closeScope | wait | sleep | scopeDepth | readLog => cases plain
  · exact .inl rfl
  · exact .inl rfl

theorem perform_keeps_log {Q : LogRecord → Prop}
    (attach : ∀ m r, Log.Modifier.Stocked m → Q r → Q (Log.attach m r).2) {a : Action β}
    (usual : a.Plain ∨ a = .openScope ∨ ∃ previous, a = .closeScope previous) {s : RunState}
    (start : Q s.log) (w : World ε) : Q (env.perform a s w).2.1.log := by
  obtain same | ⟨m, -, stocked, attached⟩ := env.perform_log usual s w
  · rw [same]
    exact start
  · rw [attached]
    exact attach m s.log stocked start

end Environment

namespace Script

variable {script : Script Stock} {env : Environment Stock ε}

/-- The record is the one at which the program of the root chain ended or was cut off. -/
theorem evaluateRoot_log_eq {w v : World ε} {evaluated : Except ScriptError Value} {s : RunState}
    (root : script.evaluateRoot env (script.initial env w) w = some (evaluated, s, v)) :
    s.log =
      (env.run script.root.program (script.initial env w) (script.limited w)).2.1.log := by
  obtain ⟨u, ran⟩ | ⟨t, u, ran, -, rfl⟩ := evaluateRoot_ran root
  · rw [ran]
  · rw [ran]

/-- What holds of a new record and is kept by attaching stock modifiers holds of the record that
the root chain leaves, however it ended. -/
theorem evaluateRoot_log {Q : LogRecord → Prop}
    (attach : ∀ m r, Log.Modifier.Stocked m → Q r → Q (Log.attach m r).2)
    (fresh : ∀ name id user time, Q (LogRecord.start name id user time)) {w v : World ε}
    {evaluated : Except ScriptError Value} {s : RunState}
    (root : script.evaluateRoot env (script.initial env w) w = some (evaluated, s, v)) :
    Q s.log := by
  have start : Q (script.initial env w).log := fresh _ _ _ _
  rw [evaluateRoot_log_eq root]
  exact script.root.program_orderly.all.run_keeps (Q := fun s => Q s.log)
    (fun a s w usual start => env.perform_keeps_log attach usual start w) start (script.limited w)

/-- An open record is closed with the verdict on the result, and nothing else about it changes but
whether its children have come to an end. -/
theorem closeLog_eq {s : RunState} (unfinished : s.log.finished = none)
    (result : Except ScriptError Value) (time : Time.Timestamp) :
    closeLog s result time =
      { s.log with
        groupComplete := if s.log.children.isEmpty then s.log.groupComplete else some s.settled
        result := (verdict result).1
        details := (verdict result).2
        finished := some time } := by
  have terminal : (verdict result).1.isTerminal = true := by
    cases result with
    | ok v => rfl
    | error e => cases e <;> rfl
  have ongoing : s.log.isFinished = false := by simp [LogRecord.isFinished, unfinished]
  unfold closeLog
  cases s.log.children.isEmpty with
  | true => simp [LogRecord.finish, ongoing, terminal]
  | false =>
    simp only [LogRecord.setGroupComplete, ongoing, Bool.false_eq_true, ↓reduceIte]
    simp [LogRecord.finish, LogRecord.isFinished, unfinished, terminal]

/-- The record of a run is the one its blocks leave, closed with the verdict on its result. -/
theorem run_log {w w' : World ε} {r : Run} (ended : script.run env w = some (r, w')) :
    ∃ evaluated s v, ∃ u : World ε,
      script.evaluateRoot env (script.initial env w) w = some (evaluated, s, v) ∧
      r.log = { s.log with
        groupComplete := if s.log.children.isEmpty then s.log.groupComplete else some s.settled
        result := (verdict r.result).1
        details := (verdict r.result).2
        finished := some u.moment } := by
  obtain ⟨evaluated, s, v, finish, u, root, -, left⟩ := run_parts ended
  have unfinished : s.log.finished = none :=
    evaluateRoot_log (Q := fun r => r.finished = none)
      (fun m r stocked still => (Log.attach_finished stocked r).trans still)
      (fun _ _ _ _ => rfl) root
  simp only [leave, Prod.mk.injEq] at left
  obtain ⟨rfl, -⟩ := left
  exact ⟨evaluated, s, v, _, root, closeLog_eq unfinished _ _⟩

end Script

theorem ScriptError.message_ne_empty (e : ScriptError) : e.message ≠ "" := by
  unfold message
  split <;> simp [toString]

namespace Run

/-- What the record of a run says of how it ended. -/
structure Filed (run : Run) : Prop where
  finished : run.log.finished.isSome
  terminal : run.log.result.isTerminal
  value : ∀ v, run.value = some v → run.log.result = .success ∧ run.log.details = v.text
  aborted : run.error = some .aborted → run.log.result = .aborted ∧ run.log.details = "aborted"
  error : ∀ e, run.error = some e → e ≠ .aborted →
    run.log.result = e.outcome ∧ run.log.details = e.message
  details : run.log.result ≠ .success → run.log.details ≠ ""

/-- What a run comes to, from what its root chain and its last interception came to. -/
structure Decided (run : Run) (evaluated : Except ScriptError Value)
    (finish : Except ScriptError Unit) : Prop where
  failed : ∀ e, evaluated = .error e → run.error = some e
  refused : ∀ v e, evaluated = .ok v → finish = .error e → run.error = some e
  passed : ∀ v, evaluated = .ok v → finish = .ok () → run.value = some v

theorem decided_of_result {run : Run} {evaluated : Except ScriptError Value}
    {finish : Except ScriptError Unit} (result : run.result = Script.outcomeOf evaluated finish) :
    run.Decided evaluated finish where
  failed e failed := by
    subst failed
    exact error_eq_some_iff.mpr result
  refused v e passed refused := by
    subst passed refused
    exact error_eq_some_iff.mpr result
  passed v passed granted := by
    subst passed granted
    exact value_eq_some_iff.mpr result

/-- A finished record with the verdict on the result says what it should. -/
theorem filed_of_verdict {run : Run} (finished : run.log.finished.isSome)
    (verdict_eq : (run.log.result, run.log.details) = verdict run.result) : run.Filed := by
  obtain ⟨outcome, details⟩ := Prod.mk.inj verdict_eq
  have value (v : Value) (h : run.value = some v) :
      run.log.result = .success ∧ run.log.details = v.text := by
    rw [outcome, details, value_eq_some_iff.mp h]
    exact ⟨rfl, rfl⟩
  have aborted (h : run.error = some .aborted) :
      run.log.result = .aborted ∧ run.log.details = "aborted" := by
    rw [outcome, details, result_of_error h]
    exact ⟨rfl, rfl⟩
  have error (e : ScriptError) (h : run.error = some e) (other : e ≠ .aborted) :
      run.log.result = e.outcome ∧ run.log.details = e.message := by
    rw [outcome, details, result_of_error h]
    cases e with
    | aborted => exact absurd rfl other
    | _ => exact ⟨rfl, rfl⟩
  -- The last two follow from the first three, by how the run ended.
  cases result : run.result with
  | ok v =>
    have success := (value v (value_eq_some_iff.mpr result)).1
    exact ⟨finished, by rw [success]; rfl, value, aborted, error, fun other => absurd success other⟩
  | error e =>
    have failed := error_eq_some_iff.mpr result
    by_cases stopped : e = .aborted
    · subst stopped
      obtain ⟨ended, text⟩ := aborted failed
      exact ⟨finished, by rw [ended]; rfl, value, aborted, error, fun _ => by rw [text]; decide⟩
    · obtain ⟨ended, text⟩ := error e failed stopped
      refine ⟨finished, ?_, value, aborted, error, fun _ => ?_⟩
      · rw [ended]
        exact e.outcome_isTerminal
      · rw [text]
        exact e.message_ne_empty

theorem value_or_error (run : Run) :
    (run.value.isSome ∧ run.error = none) ∨ (run.value = none ∧ run.error.isSome) := by
  unfold value error
  cases run.result <;> simp

end Run

/-- The error of a run, told to whoever is told that it is over. -/
def Notice.over? : Notice β → Option (Option ScriptError)
  | .finished error => some error
  | _ => none

namespace Script

/-- What the root chain of a run came to: its own result or, when it was cut off, that it took more
time than it was given. -/
def RootEnds (script : Script Stock) (env : Environment Stock ε) (w : World ε)
    (evaluated : Except ScriptError Value) : Prop :=
  (∃ s v, env.run script.root.program (script.initial env w) (script.limited w) =
    (.result evaluated, s, v)) ∨
  ∃ limit s v, script.settings.timeout = some limit ∧
    env.run script.root.program (script.initial env w) (script.limited w) = (.cut, s, v) ∧
    evaluated = .error (.timeout limit)

variable {script : Script Stock} {env : Environment Stock ε}

/-- Nothing is cut off without a deadline, and the deadline comes from the time limit alone. -/
theorem timed_of_cut {s t : RunState} {w v : World ε}
    (cut : env.run script.root.program s (script.limited w) = (.cut, t, v)) :
    ∃ limit, script.settings.timeout = some limit := by
  have timely := env.run_timely script.root.program s (script.limited w)
  rw [cut] at timely
  cases timed : script.settings.timeout with
  | none => exact absurd (by simp [limited, timed]) (timely.cut rfl)
  | some limit => exact ⟨limit, rfl⟩

theorem evaluateRoot_ends {w v : World ε} {evaluated : Except ScriptError Value} {s : RunState}
    (root : script.evaluateRoot env (script.initial env w) w = some (evaluated, s, v)) :
    script.RootEnds env w evaluated := by
  obtain ⟨u, ran⟩ | ⟨t, u, ran, rfl, -⟩ := evaluateRoot_ran root
  · exact .inl ⟨s, u, ran⟩
  · obtain ⟨limit, timed⟩ := timed_of_cut ran
    exact .inr ⟨limit, t, u, timed, ran, by simp [timed]⟩

/-- Whoever watches is told once that the run is over, and nobody else is. -/
theorem told_over {w w' : World ε} {r : Run} (ended : script.run env w = some (r, w')) :
    ∃ told, script.run env.recorded (w.beside []) = some (r, w'.beside told) ∧
      told.filterMap Notice.over? = env.debugger.toList.map fun _ => r.error := by
  obtain ⟨evaluated, s, v, -, recorded⟩ := script.run_tells env ended []
  refine ⟨_, recorded, ?_⟩
  have before : (env.news script.root.program (script.initial env w)
      (script.limited w)).filterMap Notice.over? = [] := by
    rw [List.filterMap_eq_nil_iff]
    intro n told
    have during := script.root.program_orderly.during n told
    cases n with
    | finished error => cases during
    | stopped | called | spawned => rfl
  rw [List.nil_append, List.filterMap_append, before, List.nil_append]
  cases hd : env.debugger with
  | none => simp [lastNews, hd]
  | some d =>
    simp only [lastNews, hd, Option.isSome_some, ↓reduceIte]
    rfl

end Script

/-- A run that does not crash returns if every answer comes, and a run that returns leaves a
finished record that says how it ended. It has a value or an error: the first error of the root
chain, or the one that the last interception raised when nothing failed before. Whoever watches is
told once that the run is over, and with what error. -/
theorem record_and_debugger_agree {ε : Type} (script : Script Stock) (env : Environment Stock ε)
    (w : World ε) :
    (env.Responsive → ¬script.crashes env w → ∃ run w', script.run env w = some (run, w')) ∧
    ∀ run w', script.run env w = some (run, w') →
      run.Filed ∧
      ((run.value.isSome ∧ run.error = none) ∨ (run.value = none ∧ run.error.isSome)) ∧
      (∃ evaluated s v finish u,
        script.evaluateRoot env (script.initial env w) w = some (evaluated, s, v) ∧
        script.RootEnds env w evaluated ∧
        script.interceptFinish env s v = some (finish, u) ∧
        run.Decided evaluated finish) ∧
      ∃ told, script.run env.recorded (w.beside []) = some (run, w'.beside told) ∧
        told.filterMap Notice.over? = env.debugger.toList.map fun _ => run.error := by
  refine ⟨fun responsive => Script.run_returns responsive script.root.program_orderly, ?_⟩
  intro run w' ended
  refine ⟨?_, run.value_or_error, ?_, Script.told_over ended⟩
  · obtain ⟨evaluated, s, v, time, -, log⟩ := Script.run_log ended
    exact Run.filed_of_verdict (by rw [log]; rfl) (by rw [log])
  · obtain ⟨evaluated, s, v, finish, u, root, last, left⟩ := Script.run_parts ended
    have result : run.result = Script.outcomeOf evaluated finish := by
      rw [← (Prod.mk.inj left).1]
    exact ⟨evaluated, s, v, finish, u, root, Script.evaluateRoot_ends root, last,
      Run.decided_of_result result⟩

/-- A site without services, watched by a debugger that lets everything pass but the end. -/
def refusing : Environment Stock Unit where
  site := .bare []
  debugger := some {
    intercept := fun reason _ _ e =>
      (.now (if reason = .finish then .error (.debugger "not yet") else .ok ()), e)
    finished := fun _ e => e }
  aborted _ := false
  abort e := e
  react e := e

/-- A script that fails ends with its own error and one that succeeds with that of the last
interception, and their records say so. -/
theorem refused_at_the_end :
    let fails : Script Stock := ⟨.mk ⟨"script_fail", none, .failure, [], []⟩ [] none, {}⟩
    let passes : Script Stock := ⟨.mk ⟨"logic_null", none, .null, [], []⟩ [] none, {}⟩
    let w : World Unit := { peers := (), origin := ⟨0, 0⟩ }
    (∃ run w', fails.run refusing w = some (run, w') ∧
      run.error = some (.failed "script reported failure") ∧ run.log.result = .failure ∧
      run.log.details = "Script failed: script reported failure") ∧
    ∃ run w', passes.run refusing w = some (run, w') ∧
      run.error = some (.debugger "not yet") ∧ run.log.result = .error ∧
      run.log.details = "Debugger error: not yet" := by
  intro fails passes w
  have failed : (fails.run refusing w).map (fun x => x.1.error) =
      some (some (.failed "script reported failure")) := by
    decide +kernel
  have refused : (passes.run refusing w).map (fun x => x.1.error) =
      some (some (.debugger "not yet")) := by
    decide +kernel
  obtain ⟨⟨run, w'⟩, ended, error⟩ := Option.map_eq_some_iff.mp failed
  obtain ⟨⟨run', u'⟩, ended', error'⟩ := Option.map_eq_some_iff.mp refused
  have filed := ((record_and_debugger_agree fails refusing w).2 run w' ended).1
  have filed' := ((record_and_debugger_agree passes refusing w).2 run' u' ended').1
  exact ⟨⟨run, w', ended, error, filed.error _ error nofun⟩,
    run', u', ended', error', filed'.error _ error' nofun⟩

end BlockScript
