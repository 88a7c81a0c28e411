import BlockScript.Proofs.Composition
import BlockScript.Proofs.Lifecycle
/-!
What waiting can come to.

Without a deadline nothing is cut off, and without a signal an answer is what the collaborator
makes it. Where every answer comes, every run ends, unless it crashes.
-/

namespace BlockScript

variable {β ε α : Type}

namespace Answer

/-- If an answer comes, it is consent. -/
def Consents : Answer ε Unit → Prop
  | .now r => r = .ok ()
  | .later _ r => r = .ok ()
  | .once ready => ∀ e r e', ready e = some (r, e') → r = .ok ()

end Answer

/-- A debugger that lets every stop pass. -/
def Debugger.Consents (d : Debugger β ε) : Prop :=
  ∀ reason block scopes e, (d.intercept reason block scopes e).1.Consents

namespace Environment

variable (env : Environment β ε)

/-- Without a deadline there is an end to the waiting for an answer. -/
def Comes (answer : Answer ε α) : Prop :=
  ∀ raced w, w.deadline = none → ∃ r v, env.await raced answer w = (.result r, v)

/-- Neither the site nor a debugger leaves a run waiting for ever. -/
structure Responsive : Prop where
  call : ∀ service args e, env.Comes (env.site.call service args e).1
  spawn : ∀ name presets e, env.Comes (env.site.spawn name presets e).1
  intercept : ∀ d, env.debugger = some d → ∀ reason block scopes e,
    env.Comes (d.intercept reason block scopes e).1

/-- The last interception of a run is answered. -/
def Concludes : Prop :=
  ∀ d, env.debugger = some d → ∀ block scopes (w : World ε), w.deadline = none →
    ∃ r v, env.await false (d.intercept .finish block scopes w.peers).1
      { w with peers := (d.intercept .finish block scopes w.peers).2 } = (.result r, v)

variable {env}

theorem Responsive.concludes (h : env.Responsive) : env.Concludes :=
  fun d watched block scopes w unlimited =>
    h.intercept d watched .finish block scopes w.peers false _ unlimited

theorem passAbort_deadline (due : Option Nat) (w : World ε) :
    (env.passAbort due w).deadline = w.deadline := by
  unfold passAbort
  split
  · rfl
  · split <;> rfl

/-- The deadline stands. Only a deadline cuts anything off, and nothing is stuck under one. -/
structure Timely (limit : Option Nat) (ending : Ending α) (v : World ε) : Prop where
  deadline : v.deadline = limit
  cut : ending = .cut → limit ≠ none
  stuck : ending = .stuck → limit = none

/-- A result may come under any deadline. -/
theorem timely_result (r : Except ScriptError α) {limit : Option Nat} {v : World ε}
    (stands : v.deadline = limit) : Timely limit (.result r) v :=
  ⟨stands, nofun, nofun⟩

theorem timely_crash {limit : Option Nat} {v : World ε} (stands : v.deadline = limit) :
    Timely limit (.crash : Ending α) v :=
  ⟨stands, nofun, nofun⟩

theorem passTime_timely (due : Option (Nat × Except ScriptError α)) (w : World ε) :
    Timely w.deadline (passTime due w).1 (passTime due w).2 := by
  obtain ⟨peers, origin, now, abortAt, limit⟩ := w
  cases due with
  | none =>
    cases limit with
    | none => exact ⟨rfl, nofun, fun _ => rfl⟩
    | some t => exact ⟨rfl, nofun, nofun⟩
  | some d =>
    obtain ⟨due, r⟩ := d
    cases limit with
    | none => exact timely_result r rfl
    | some t =>
      simp only [passTime]
      split
      · exact timely_result r rfl
      · exact ⟨rfl, nofun, nofun⟩

theorem suspend_timely (raced : Bool) (due : Option (Nat × Except ScriptError α))
    (ready : ε → Option (Except ScriptError α × ε)) (w : World ε) :
    Timely w.deadline (env.suspend raced due ready w).1 (env.suspend raced due ready w).2 := by
  rw [suspend_eq_settle]
  split
  · next past =>
    refine ⟨rfl, fun _ unlimited => ?_, nofun⟩
    simp [unlimited] at past
  · simp only [settle]
    split
    · exact timely_result _ rfl
    · split
      · exact timely_result _ rfl
      · have still : (env.passAbort (due.map Prod.fst)
            { w with peers := env.react w.peers }).deadline = w.deadline :=
          env.passAbort_deadline (due.map Prod.fst) { w with peers := env.react w.peers }
        generalize env.passAbort (due.map Prod.fst) { w with peers := env.react w.peers } = u
          at still ⊢
        split
        · exact timely_result _ still
        · exact still ▸ passTime_timely due u

theorem await_timely (raced : Bool) (answer : Answer ε α) (w : World ε) :
    Timely w.deadline (env.await raced answer w).1 (env.await raced answer w).2 := by
  cases answer with
  | now r => exact timely_result r rfl
  | later ms r =>
    simp only [await]
    split
    · exact timely_result r rfl
    · exact suspend_timely raced _ _ w
  | once ready => exact suspend_timely raced none ready w

theorem race_timely (ask : ε → Answer ε α × ε) (w : World ε) :
    Timely w.deadline (env.race ask w).1 (env.race ask w).2 := by
  simp only [race]
  split
  · exact timely_result _ rfl
  · exact await_timely true _ { w with peers := (ask w.peers).2 }

theorem perform_timely (a : Action β) (s : RunState) (w : World ε) :
    Timely w.deadline (env.perform a s w).1 (env.perform a s w).2.2 := by
  cases a with
  | stop reason block =>
    simp only [perform]
    split
    · exact timely_result _ rfl
    · exact race_timely _ w
  | spawn name presets =>
    have raced := env.race_timely (env.site.spawn name presets) w
    simp only [perform]
    split
    · exact timely_result _ raced.deadline
    · exact raced
  | call service args => exact race_timely _ w
  | wait ms => exact race_timely (fun peers => (.later ms (.ok ()), peers)) w
  | sleep ms => exact await_timely false (.later ms (.ok ())) w
  | reserve count =>
    simp only [perform]
    split
    · exact timely_result _ rfl
    · exact timely_crash rfl
  | crash => exact timely_crash rfl
  | _ => exact timely_result _ rfl

/-- A program keeps to the deadline it is run under. -/
theorem run_timely (p : Program β α) (s : RunState) (w : World ε) :
    Timely w.deadline (env.run p s w).1 (env.run p s w).2.2 := by
  induction p generalizing s w with
  | done r => exact timely_result r rfl
  | act a resume ih =>
    have step := env.perform_timely a s w
    rcases performed : env.perform a s w with ⟨ending, t, v⟩
    rw [performed] at step
    simp only [run, performed]
    cases ending with
    | result reply =>
      rw [← step.deadline]
      exact ih reply t v
    | cut =>
      refine ⟨step.deadline, fun _ => step.cut rfl, ?_⟩
      intro stuck
      cases stuck
    | stuck =>
      refine ⟨step.deadline, ?_, fun _ => step.stuck rfl⟩
      intro cut
      cases cut
    | crash => exact timely_crash step.deadline

/-- Without a deadline no program is cut off. -/
theorem run_uncut (p : Program β α) (s : RunState) {w : World ε} (unlimited : w.deadline = none) :
    (env.run p s w).1 ≠ .cut ∧ (env.run p s w).2.2.deadline = none := by
  have timely := env.run_timely p s w
  exact ⟨fun cut => timely.cut cut unlimited, timely.deadline.trans unlimited⟩

theorem passTime_result {due : Option (Nat × Except ScriptError α)} {w v : World ε}
    {r : Except ScriptError α} (h : passTime due w = (.result r, v)) : ∃ t, due = some (t, r) := by
  cases due with
  | none => cases hd : w.deadline <;> simp [passTime, hd] at h
  | some d =>
    obtain ⟨t, q⟩ := d
    cases hd : w.deadline with
    | none =>
      simp only [passTime, hd, Prod.mk.injEq, Ending.result.injEq] at h
      exact ⟨t, by rw [h.1]⟩
    | some limit =>
      simp only [passTime, hd] at h
      split at h
      · cases h
        exact ⟨t, rfl⟩
      · cases h

/-- Where no signal is ever raised, waiting ends with what was ready or with what was due. -/
theorem suspend_result (quiet : ∀ e, env.aborted e = false) {raced : Bool}
    {due : Option (Nat × Except ScriptError α)} {ready : ε → Option (Except ScriptError α × ε)}
    {w v : World ε} {r : Except ScriptError α}
    (h : env.suspend raced due ready w = (.result r, v)) :
    (∃ e e', ready e = some (r, e')) ∨ ∃ t, due = some (t, r) := by
  rw [suspend_eq_settle] at h
  split at h
  · cases h
  · simp only [settle, quiet, Bool.and_false, Bool.false_eq_true, ↓reduceIte] at h
    split at h
    · next q peers found =>
      cases h
      exact .inl ⟨_, _, found⟩
    · exact .inr (passTime_result h)

/-- Where no signal is ever raised, a debugger that consents does nothing else. -/
theorem await_consents (quiet : ∀ e, env.aborted e = false) {answer : Answer ε Unit}
    (consents : answer.Consents) {raced : Bool} {w v : World ε} {r : Except ScriptError Unit}
    (h : env.await raced answer w = (.result r, v)) : r = .ok () := by
  cases answer with
  | now q =>
    cases h
    exact consents
  | later ms q =>
    simp only [await] at h
    split at h
    · cases h
      exact consents
    · obtain ⟨_, _, found⟩ | ⟨_, found⟩ := suspend_result quiet h
      · cases found
      · cases found
        exact consents
  | once ready =>
    obtain ⟨e, e', found⟩ | ⟨_, found⟩ := suspend_result quiet h
    · exact consents e r e' found
    · cases found

theorem race_comes {ask : ε → Answer ε α × ε} (comes : ∀ e, env.Comes (ask e).1) {w : World ε}
    (unlimited : w.deadline = none) : ∃ r v, env.race ask w = (.result r, v) := by
  simp only [race]
  split
  · exact ⟨_, _, rfl⟩
  · exact comes w.peers true { w with peers := (ask w.peers).2 } unlimited

theorem Responsive.perform_answered (h : env.Responsive) {a : Action β} (plain : a.Plain)
    (s : RunState) {w : World ε} (unlimited : w.deadline = none) :
    (env.perform a s w).1 ≠ .stuck := by
  cases a with
  | stop reason block =>
    cases hd : env.debugger with
    | none => simp [perform, hd]
    | some d =>
      obtain ⟨r, v, came⟩ := race_comes (h.intercept d hd reason block s.scopes) unlimited
      simp [perform, hd, came]
  | call service args =>
    obtain ⟨r, v, came⟩ := race_comes (h.call service args) unlimited
    simp [perform, came]
  | spawn name presets =>
    obtain ⟨r, v, came⟩ := race_comes (h.spawn name presets) unlimited
    cases r <;> simp [perform, came]
  | reserve count =>
    simp only [perform]
    split <;> simp
  | checkAbort | lookup | assign | assignGlobal | attach | crash => simp [perform]
  | openScope | openRootScope | closeScope | wait | sleep | scopeDepth | readLog => cases plain

end Environment

/-- Where every answer comes, no orderly program is left waiting. -/
theorem Program.Orderly.answered {p : Program β α} (h : p.Orderly) {env : Environment β ε}
    (responsive : env.Responsive) (s : RunState) {w : World ε} (unlimited : w.deadline = none) :
    (env.run p s w).1 ≠ .stuck := by
  induction h generalizing s w with
  | done r => simp [Environment.run]
  | act a plain =>
    rw [Environment.run_perform]
    exact responsive.perform_answered plain s unlimited
  | @bind α γ p f first rest ihf ihr =>
    -- The second part needs a world without a deadline too, and the first leaves one.
    have answered := ihf s unlimited
    have still := (env.run_uncut p s unlimited).2
    rw [Environment.run_bind]
    rcases ran : env.run p s w with ⟨ending, t, v⟩
    rw [ran] at answered still
    cases ending with
    | result r =>
      cases r with
      | ok a => exact ihr a t still
      | error e => simp
    | stuck => exact absurd rfl answered
    | cut | crash => simp
  | inScope body ih =>
    have answered := ih { s with scopes := s.scopes.openScope } unlimited
    rw [Environment.run_inScope]
    rcases ran : env.run _ { s with scopes := s.scopes.openScope } w with ⟨ending, t, v⟩
    rw [ran] at answered
    cases ending with
    | stuck => exact absurd rfl answered
    | result _ | cut | crash => simp

namespace Script

variable [Behavior β] {script : Script β} {env : Environment β ε}

/-- Without a timeout, an evaluation comes to the result of the root chain. -/
theorem evaluateRoot_result (untimed : script.settings.timeout = none) {s s' : RunState}
    {w w' : World ε} {r : Except ScriptError Value}
    (h : script.evaluateRoot env s w = some (r, s', w')) :
    ∃ v, env.run script.root.program s (script.limited w) = (.result r, s', v) := by
  have unlimited : (script.limited w).deadline = none := by simp [limited, untimed]
  have uncut := (env.run_uncut script.root.program s unlimited).1
  obtain ran | ⟨t, u, ran, -⟩ := evaluateRoot_ran h
  · exact ran
  · rw [ran] at uncut
    exact absurd rfl uncut

/-- A run whose last interception passes has the result of its evaluation. -/
theorem run_result {d : Debugger β ε} (watched : env.debugger = some d) (consents : d.Consents)
    (quiet : ∀ e, env.aborted e = false) {w w' v : World ε} {s : RunState} {run : Run}
    {evaluated : Except ScriptError Value} (ran : script.run env w = some (run, w'))
    (root : script.evaluateRoot env (script.initial env w) w = some (evaluated, s, v)) :
    run.result = evaluated := by
  rw [run_eq, root] at ran
  obtain ⟨⟨finish, u⟩, last, left⟩ := Option.map_eq_some_iff.mp ran
  have passed : finish = .ok () := by
    rw [interceptFinish_eq_arrived script env watched] at last
    generalize awaited : env.await false _ _ = x at last
    obtain ⟨ending, u⟩ := x
    cases ending with
    | result r =>
      cases last
      exact Environment.await_consents quiet (consents _ _ _ _) awaited
    | cut | stuck | crash => cases last
  subst passed
  cases left
  cases evaluated <;> rfl

omit [Behavior β] in
theorem interceptFinish_ends (concludes : env.Concludes) (s : RunState) {w : World ε}
    (unlimited : w.deadline = none) :
    ∃ finish v, script.interceptFinish env s w = some (finish, v) := by
  cases hd : env.debugger with
  | none => exact ⟨.ok (), w, by simp [interceptFinish, hd]⟩
  | some d =>
    obtain ⟨finish, v, came⟩ := concludes d hd script.root s.scopes w unlimited
    refine ⟨finish, v, ?_⟩
    rw [interceptFinish_eq_arrived script env hd]
    exact congrArg arrived came

theorem evaluateRoot_unlimited {s t : RunState} {w v : World ε}
    {evaluated : Except ScriptError Value}
    (root : script.evaluateRoot env s w = some (evaluated, t, v)) : v.deadline = none := by
  rw [evaluateRoot_eq_conclude] at root
  rcases ran : env.run script.root.program s (script.limited w) with ⟨ending, t', u⟩
  rw [ran] at root
  cases ending <;> cases root <;> rfl

/-- Once the root chain is done, a run waits for its last interception only. -/
theorem run_of_evaluated (concludes : env.Concludes) {s : RunState} {w v : World ε}
    {evaluated : Except ScriptError Value}
    (root : script.evaluateRoot env (script.initial env w) w = some (evaluated, s, v)) :
    ∃ finish run w', script.run env w = some (run, w') ∧
      run.result = outcomeOf evaluated finish := by
  obtain ⟨finish, u, last⟩ := script.interceptFinish_ends concludes s (evaluateRoot_unlimited root)
  refine ⟨finish, (leave env evaluated s finish u).1, (leave env evaluated s finish u).2, ?_, rfl⟩
  rw [run_eq, root, Option.bind_some, last]
  rfl

/-- Where every answer comes, every run of orderly blocks ends that does not crash. -/
theorem run_returns (responsive : env.Responsive) (orderly : script.root.program.Orderly)
    {w : World ε} (intact : ¬script.crashes env w) :
    ∃ run w', script.run env w = some (run, w') := by
  have timely := env.run_timely script.root.program (script.initial env w) (script.limited w)
  rcases ran : env.run script.root.program (script.initial env w) (script.limited w) with
    ⟨ending, s, v⟩
  rw [ran] at timely
  have root : script.evaluateRoot env (script.initial env w) w = _ := congrArg script.conclude ran
  cases ending with
  | result _ | cut =>
    obtain ⟨finish, run, w', ended, -⟩ := run_of_evaluated responsive.concludes root
    exact ⟨run, w', ended⟩
  | stuck =>
    -- A timeout ends what never answers, and without one every answer comes.
    have answered := orderly.answered responsive (script.initial env w) (timely.stuck rfl)
    rw [ran] at answered
    exact absurd rfl answered
  | crash => exact absurd (crashes_iff.mpr ⟨s, v, ran⟩) intact

end Script

end BlockScript
