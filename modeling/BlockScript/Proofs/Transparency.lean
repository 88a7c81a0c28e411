import BlockScript.Proofs.Alongside
import BlockScript.Proofs.Waiting
import BlockScript.Stepper
/-!
Watching a run changes nothing about it.

A run that nobody watches, one watched by a debugger that grants every stop, and one under a stepper
that is sent on or left alone come to the same, their clocks aside, and ask the site the same. An
evaluation comes to what a run over the same bindings comes to, and nobody is told of it.
-/

namespace BlockScript

variable {σ δ : Type}

namespace LogRecord

/-- The same record, the times of start and finish aside. -/
def SameButTimes (r q : LogRecord) : Prop :=
  ∃ started finished, finished.isSome = r.finished.isSome ∧ q = { r with started, finished }

theorem sameButTimes_start (name id : Option String) (user : String) (t u : Time.Timestamp) :
    (start name id user t).SameButTimes (start name id user u) :=
  ⟨u, none, rfl, rfl⟩

theorem steady_sameButTimes : Log.Steady SameButTimes := by
  rintro m r q stocked ⟨started, finished, still, rfl⟩
  have open_eq : isFinished { r with started, finished } = r.isFinished := still
  unfold Log.attach
  rw [open_eq]
  split
  · exact ⟨rfl, started, finished, still, rfl⟩
  · obtain ⟨key, value, rfl⟩ | ⟨id, rfl⟩ := stocked
    · exact ⟨rfl, started, finished, still, rfl⟩
    · simp only [Log.Modifier.childScript, linkChild, Bool.false_eq_true, ↓reduceIte]
      split
      · exact ⟨trivial, started, finished, still, rfl⟩
      · exact ⟨trivial, started, finished, still, rfl⟩

theorem steady_isFinished : Log.Steady fun r q => q.isFinished = r.isFinished := by
  intro m r q stocked same
  unfold Log.attach
  rw [same]
  split
  · exact ⟨rfl, same⟩
  · obtain ⟨key, value, rfl⟩ | ⟨id, rfl⟩ := stocked
    · exact ⟨rfl, same⟩
    · simp only [Log.Modifier.childScript, linkChild, Bool.false_eq_true, ↓reduceIte]
      split <;> split <;> exact ⟨trivial, same⟩

namespace SameButTimes

variable {r q : LogRecord} (h : r.SameButTimes q)
include h

theorem isFinished_eq : q.isFinished = r.isFinished := by
  obtain ⟨started, finished, still, rfl⟩ := h
  exact still

theorem children_eq : q.children = r.children := by
  obtain ⟨started, finished, still, rfl⟩ := h
  rfl

theorem setGroupComplete (complete : Bool) :
    (r.setGroupComplete complete).SameButTimes (q.setGroupComplete complete) := by
  unfold LogRecord.setGroupComplete
  rw [h.isFinished_eq]
  obtain ⟨started, finished, still, rfl⟩ := h
  split
  · exact ⟨started, finished, still, rfl⟩
  · exact ⟨started, finished, still, rfl⟩

theorem finish (outcome : Outcome) (details : String) (t u : Time.Timestamp) :
    (∃ e f, r.finish outcome details t = .error e ∧ q.finish outcome details u = .error f) ∨
    ∃ a b, r.finish outcome details t = .ok a ∧ q.finish outcome details u = .ok b ∧
      a.SameButTimes b := by
  unfold LogRecord.finish
  rw [h.isFinished_eq]
  obtain ⟨started, finished, still, rfl⟩ := h
  split
  · exact .inl ⟨_, _, rfl, rfl⟩
  · exact .inr ⟨_, _, rfl, rfl, started, some u, rfl, rfl⟩

end SameButTimes

end LogRecord

namespace Script

theorem sameButTimes_closeLog {s t : RunState} (settled : t.settled = s.settled)
    (log : s.log.SameButTimes t.log) (result : Except ScriptError Value) (u v : Time.Timestamp) :
    (closeLog s result u).SameButTimes (closeLog t result v) := by
  unfold closeLog
  rw [log.children_eq, settled]
  have grouped : LogRecord.SameButTimes
      (if s.log.children.isEmpty then s.log else s.log.setGroupComplete s.settled)
      (if s.log.children.isEmpty then t.log else t.log.setGroupComplete s.settled) := by
    split
    · exact log
    · exact log.setGroupComplete s.settled
  obtain ⟨e, f, one, two⟩ | ⟨a, b, one, two, closed⟩ :=
    grouped.finish (verdict result).1 (verdict result).2 u v
  · simp only [one, two]
    exact grouped
  · simp only [one, two]
    exact closed

end Script

/-- Two runs came to the same value or error and left the same root variables, and their log
records differ in their times at most. -/
structure Run.Agrees (r q : Run) : Prop where
  result : q.result = r.result
  globals : q.globals = r.globals
  log : r.log.SameButTimes q.log

namespace Script

section
variable (script : Script Stock)

/-- How many blocks are entered and left in a run that nobody watches. -/
def stopCount (site : Site σ) (w : World σ) : Nat :=
  (Environment.alone site).stopCount script.root.program (script.initial (.alone site) w)
    (script.limited w)

variable {script} (untimed : script.settings.timeout = none) (site : Site σ)
  {watcher : Option (Debugger Stock δ)} {moves : δ → δ} {ready : Nat → δ → Prop}
  (patience : Patience watcher moves ready)
include untimed patience

/-- The root chain, alone and in company. -/
theorem root_inStep {logs : LogRecord → LogRecord → Prop} (steady : Log.Steady logs)
    {s t : RunState} (state : s.Twin logs t) {w : World σ} {v : World (σ × δ)}
    (same : v.peers.1 = w.peers)
    (patient : ready ((Environment.alone site).stopCount script.root.program s (script.limited w))
      v.peers.2) :
    InStep logs (ready 0)
      ((Environment.alone site).run script.root.program s (script.limited w))
      ((Environment.beside site watcher moves).run script.root.program t (script.limited v)) := by
  have world : (script.limited w).Twin (script.limited v) :=
    ⟨same, by simp [limited, untimed], by simp [limited, untimed]⟩
  exact Environment.run_inStep patience steady script.root.program_orderly.all state world
    ((Nat.zero_add _).symm ▸ patient)

/-- The evaluation of the root chain, alone and in company. -/
theorem evaluateRoot_inStep {logs : LogRecord → LogRecord → Prop} (steady : Log.Steady logs)
    {s t : RunState} (state : s.Twin logs t) {w : World σ} {v : World (σ × δ)}
    (same : v.peers.1 = w.peers)
    (patient : ready ((Environment.alone site).stopCount script.root.program s (script.limited w))
      v.peers.2) :
    Option.Rel (fun x y => y.1 = x.1 ∧ x.2.1.Twin logs y.2.1 ∧ x.2.2.Twin y.2.2 ∧
        ready 0 y.2.2.peers.2)
      (script.evaluateRoot (.alone site) s w)
      (script.evaluateRoot (.beside site watcher moves) t v) := by
  have steps := root_inStep untimed site patience steady state same patient
  rw [evaluateRoot_eq_conclude, evaluateRoot_eq_conclude]
  generalize (Environment.alone site).run script.root.program s (script.limited w) = x at steps ⊢
  generalize (Environment.beside site watcher moves).run script.root.program t
    (script.limited v) = y at steps ⊢
  obtain ⟨ending, s', w'⟩ := x
  obtain ⟨ending', t', v'⟩ := y
  obtain ⟨eq, state, world, patient⟩ := steps
  cases eq
  cases ending with
  | result r => exact .some ⟨rfl, state, ⟨world.site, rfl, rfl⟩, patient⟩
  | cut =>
    refine .some ⟨rfl, ⟨?_, state.settled, state.log⟩, ⟨world.site, rfl, rfl⟩, patient⟩
    exact congrArg Scopes.unwind state.scopes
  | stuck | crash => exact .none

omit untimed in
variable (script) in
/-- A patient watcher lets the last interception pass. -/
theorem finish_granted (s : RunState) {w : World σ} {v : World (σ × δ)} (twin : w.Twin v)
    (patient : ready 0 v.peers.2) :
    ∃ u, script.interceptFinish (.beside site watcher moves) s v = some (.ok (), u) ∧ w.Twin u := by
  cases watcher with
  | none => exact ⟨v, rfl, twin⟩
  | some d =>
    obtain ⟨z, grants⟩ := patience.finish d rfl script.root s.scopes 0 _ patient
    obtain ⟨u, awaited, peers, deadline⟩ :=
      Environment.await_granted site twin.unlimited_beside grants
    refine ⟨u, ?_, ⟨peers.trans twin.site, twin.unlimited, deadline⟩⟩
    rw [interceptFinish_eq_arrived script (.beside site (some d) moves) rfl]
    exact congrArg arrived awaited

omit untimed patience in
/-- What is left behind, alone and in company. -/
theorem leave_agrees {s t : RunState} (state : s.Twin LogRecord.SameButTimes t) {w : World σ}
    {v : World (σ × δ)} (world : w.Twin v) (evaluated : Except ScriptError Value)
    (finish : Except ScriptError Unit) :
    let x := leave (Environment.alone site : Environment Stock σ) evaluated s finish w
    let y := leave (Environment.beside site watcher moves) evaluated t finish v
    x.1.Agrees y.1 ∧ y.2.peers.1 = x.2.peers := by
  -- Unfolded first: as they stand the two could only be compared by their clocks.
  simp only [leave]
  refine ⟨⟨rfl, ?_, sameButTimes_closeLog state.settled state.log _ _ _⟩, ?_⟩
  · exact congrArg Scopes.globals state.scopes
  · cases watcher with
    | none => exact world.site
    | some d => exact world.site

omit untimed patience in
theorem initial_twin (script : Script Stock) (site : Site σ) (watcher : Option (Debugger Stock δ))
    (moves : δ → δ) (w : World σ) (v : World (σ × δ)) :
    (script.initial (.alone site) w).Twin LogRecord.SameButTimes
      (script.initial (.beside site watcher moves) v) := by
  unfold initial
  exact ⟨rfl, rfl, LogRecord.sameButTimes_start _ _ _ _ _⟩

/-- A patient watcher sees a crash where there is one without it. -/
theorem crashes_agrees {w : World σ} {v : World (σ × δ)} (same : v.peers.1 = w.peers)
    (patient : ready (script.stopCount site w) v.peers.2) :
    script.crashes (.beside site watcher moves) v = script.crashes (.alone site) w := by
  have steps := root_inStep untimed site patience LogRecord.steady_sameButTimes
    (initial_twin script site watcher moves w v) same patient
  rw [crashes, crashes, crashesFrom, crashesFrom, steps.ending]

/-- A run that nobody watches, and the same run under a patient watcher. -/
theorem run_agrees {w : World σ} {v : World (σ × δ)} (same : v.peers.1 = w.peers)
    (patient : ready (script.stopCount site w) v.peers.2) :
    Option.Rel (fun x y => x.1.Agrees y.1 ∧ y.2.peers.1 = x.2.peers)
      (script.run (.alone site) w) (script.run (.beside site watcher moves) v) := by
  have root := evaluateRoot_inStep untimed site patience LogRecord.steady_sameButTimes
    (initial_twin script site watcher moves w v) same patient
  rw [run_eq, run_eq]
  generalize script.evaluateRoot (.alone site) (script.initial (.alone site) w) w = x at root ⊢
  generalize script.evaluateRoot (.beside site watcher moves)
    (script.initial (.beside site watcher moves) v) v = y at root ⊢
  cases root with
  | none => exact .none
  | @some a b related =>
    obtain ⟨evaluated, s, w'⟩ := a
    obtain ⟨evaluated', t, v'⟩ := b
    obtain ⟨eq, state, world, patient⟩ := related
    cases eq
    obtain ⟨u, passed, world⟩ := finish_granted script site patience t world patient
    change Option.Rel _ (some (leave (.alone site) evaluated s (.ok ()) w'))
      ((script.interceptFinish (.beside site watcher moves) t v').map fun y =>
        leave (.beside site watcher moves) evaluated t y.1 y.2)
    rw [passed]
    exact .some (leave_agrees site state world evaluated (.ok ()))

end

section
variable (script : Script Stock) (site : Site σ) (moves : δ → δ)

/-- A run that nobody watches ends with the evaluation of its root chain. -/
theorem run_alone (w : World σ) :
    script.run (.alone site) w =
      (script.evaluateRoot (.alone site) (script.initial (.alone site) w) w).map fun x =>
        leave (.alone site : Environment Stock σ) x.1 x.2.1 (.ok ()) x.2.2 := by
  rw [run_eq]
  cases script.evaluateRoot (.alone site) (script.initial (.alone site) w) w <;> rfl

/-- What the root scope of a site is to hold does not matter to an evaluation. -/
theorem evaluateRoot_presets (presets : Bindings) (s : RunState) (v : World (σ × δ)) :
    script.evaluateRoot (.beside { site with presets } none moves) s v =
      script.evaluateRoot (.beside site none moves) s v := by
  rw [evaluateRoot_eq_conclude, evaluateRoot_eq_conclude]
  exact congrArg script.conclude
    (Environment.run_presets (.beside site none moves) presets script.root.program s _)

/-- An evaluation over some bindings starts like a run on the site with those bindings. -/
theorem initialOver_twin (presets : Bindings) (w : World σ) (v : World (σ × δ)) :
    (script.initial (.alone { site with presets }) w).Twin
      (fun r q => q.isFinished = r.isFinished) (script.initialOver presets v) := by
  unfold initial initialOver LogRecord.start LogRecord.isFinished
  exact ⟨rfl, rfl, rfl⟩

end

section
variable {script : Script Stock} (untimed : script.settings.timeout = none) (site : Site σ)
  (watcher : Option (Debugger Stock δ)) {moves : δ → δ} {left : δ → Prop}
  (untouched : ∀ y, left y → left (moves y)) (presets : Bindings) {w : World σ}
  {v : World (σ × δ)} (same : v.peers.1 = w.peers) (start : left v.peers.2)
include untimed same

/-- An evaluation crashes where a run that nobody watches does. -/
theorem evaluationCrashes_agrees :
    script.evaluationCrashes (.beside site watcher moves) presets v =
      script.crashes (.alone { site with presets }) w := by
  have patience : Patience (none : Option (Debugger Stock δ)) moves fun _ _ => True :=
    .unwatched fun _ h => h
  have steps := root_inStep untimed { site with presets } patience
    LogRecord.steady_isFinished (script.initialOver_twin site presets w v) same trivial
  have ran : (Environment.beside { site with presets } none moves).run script.root.program _ _ =
      _ :=
    Environment.run_presets (.beside site none moves) presets script.root.program
      (script.initialOver presets v) (script.limited v)
  have crash := congrArg Ending.isCrash steps.ending
  rw [ran] at crash
  exact crash

include untouched start

/-- An evaluation over some bindings, and a run that nobody watches on the site with those bindings.
Whoever is beside an evaluation moves on by themselves only. -/
theorem evaluate_agrees :
    Option.Rel (fun x y => y.1 = x.1.result ∧ y.2.peers.1 = x.2.peers ∧ left y.2.peers.2)
      (script.run (.alone { site with presets }) w)
      (script.evaluate (.beside site watcher moves) presets v) := by
  have root := evaluateRoot_inStep untimed { site with presets } (Patience.unwatched untouched)
    LogRecord.steady_isFinished (script.initialOver_twin site presets w v) same start
  have evaluates : script.evaluate (.beside site watcher moves) presets v =
      (script.evaluateRoot (.beside site none moves) (script.initialOver presets v) v).map
        fun x => (x.1, x.2.2) := script.evaluate_eq (.beside site watcher moves) presets v
  rw [run_alone, evaluates]
  rw [evaluateRoot_presets] at root
  generalize script.evaluateRoot (.alone { site with presets })
    (script.initial (.alone { site with presets }) w) w = x at root ⊢
  generalize script.evaluateRoot (.beside site none moves) (script.initialOver presets v) v = y
    at root ⊢
  cases root with
  | none => exact .none
  | @some a b related =>
    obtain ⟨evaluated, s, w'⟩ := a
    obtain ⟨eq, -, world, still⟩ := related
    refine .some ⟨?_, world.site, still⟩
    rw [eq]
    cases evaluated <;> rfl

end

end Script

namespace Stepper

/-- A controller that reads what it likes, may go away, and sends no abort. -/
structure Encourages (control : Stepper → Stepper) : Prop where
  free : ∀ s, (control s).free = s.free
  gone : ∀ s, s.abandoned → (control s).abandoned
  sends : ∀ s, ∃ more, (control s).commands = s.commands ++ more ∧ .abort ∉ more

/-- What lets a stepper go on past a number of stops: it stands alone or runs free already, there
is a release or a command for each stop, or the controller never leaves it waiting. -/
def Enough (control : Stepper → Stepper) (n : Nat) (s : Stepper) : Prop :=
  s.abandoned ∨ s.free ∨ .release ∈ s.commands ∨ n ≤ s.commands.length ∨
    ∀ t, (control t).commands ≠ [] ∨ (control t).abandoned

/-- No abort was sent, and there is enough for a number of stops. -/
def Willing (control : Stepper → Stepper) (n : Nat) (s : Stepper) : Prop :=
  .abort ∉ s.commands ∧ s.Enough control n

variable {control : Stepper → Stepper} {n : Nat} {s : Stepper}

theorem willing_free (clean : .abort ∉ s.commands) (free : s.free) : s.Willing control n :=
  ⟨clean, .inr (.inl free)⟩

theorem Willing.publish (h : s.Willing control n) (e : StepEvent) :
    (s.publish e).Willing control n := by
  unfold Stepper.publish
  split
  · exact h
  · exact h

theorem Willing.fewer (h : s.Willing control (n + 1)) : s.Willing control n := by
  obtain ⟨clean, gone | free | released | enough | attentive⟩ := h
  · exact ⟨clean, .inl gone⟩
  · exact ⟨clean, .inr (.inl free)⟩
  · exact ⟨clean, .inr (.inr (.inl released))⟩
  · exact ⟨clean, .inr (.inr (.inr (.inl (by omega))))⟩
  · exact ⟨clean, .inr (.inr (.inr (.inr attentive)))⟩

theorem Encourages.willing (encourages : Encourages control) (h : s.Willing control n) :
    (control s).Willing control n := by
  obtain ⟨more, sent, harmless⟩ := encourages.sends s
  obtain ⟨clean, enough⟩ := h
  refine ⟨by simp [sent, clean, harmless], ?_⟩
  obtain gone | free | released | enough | attentive := enough
  · exact .inl (encourages.gone s gone)
  · exact .inr (.inl ((encourages.free s).trans free))
  · exact .inr (.inr (.inl (by simp [sent, released])))
  · exact .inr (.inr (.inr (.inl (by simp [sent]; omega))))
  · exact .inr (.inr (.inr (.inr attentive)))

/-- A stepper that has a command, or nobody to wait for, goes on. -/
theorem Willing.obey (h : s.Willing control (n + 1)) (ready : s.commands ≠ [] ∨ s.abandoned) :
    ∃ z, s.obey = some (.ok (), z) ∧ z.Willing control n := by
  obtain ⟨clean, enough⟩ := h
  cases sent : s.commands with
  | nil =>
    have gone : s.abandoned := ready.resolve_left (fun some_left => some_left sent)
    exact ⟨{ s with free := true }, by simp [Stepper.obey, sent, gone], willing_free clean rfl⟩
  | cons c rest =>
    rw [sent] at clean
    have harmless : .abort ∉ rest := fun mem => clean (List.mem_cons_of_mem c mem)
    cases c with
    | step =>
      refine ⟨{ s with commands := rest }, by simp [Stepper.obey, sent], harmless, ?_⟩
      obtain gone | free | released | enough | attentive := enough
      · exact .inl gone
      · exact .inr (.inl free)
      · exact .inr (.inr (.inl (by simpa [sent] using released)))
      · exact .inr (.inr (.inr (.inl (by simpa [sent] using enough))))
      · exact .inr (.inr (.inr (.inr attentive)))
    | release =>
      exact ⟨{ s with commands := rest, free := true }, by simp [Stepper.obey, sent],
        willing_free harmless rfl⟩
    | abort => exact absurd List.mem_cons_self clean

theorem free_publish (s : Stepper) (e : StepEvent) : (s.publish e).free = s.free := by
  unfold Stepper.publish
  split <;> rfl

/-- A stepper that has nothing to go on with can only be willing because its controller is
attentive. -/
theorem Willing.attentive (h : s.Willing control (n + 1)) (free : ¬ s.free) (bare : s.commands = [])
    (kept : ¬ s.abandoned) : ∀ t, (control t).commands ≠ [] ∨ (control t).abandoned := by
  obtain ⟨-, gone | free' | released | enough | attentive⟩ := h
  · exact absurd gone kept
  · exact absurd free' free
  · simp [bare] at released
  · simp [bare] at enough
  · exact attentive

/-- A willing stepper lets a stop pass. -/
theorem Willing.stop (encourages : Encourages control) (h : s.Willing control (n + 1))
    {event : StopEvent} (going : event.reason ≠ .finish) :
    ∃ z, (s.stop event).1.Grants control (s.stop event).2 z ∧ z.Willing control n := by
  unfold Stepper.stop
  rw [if_neg going]
  by_cases free : s.free
  · rw [if_pos free]
    exact ⟨s, ⟨rfl, rfl⟩, h.fewer⟩
  rw [if_neg free, ← free_publish s (.stopped event)] at *
  replace h := h.publish (.stopped event)
  generalize s.publish (.stopped event) = told at h free ⊢
  by_cases ready : told.commands ≠ [] ∨ told.abandoned
  · obtain ⟨z, obeyed, willing⟩ := h.obey ready
    exact ⟨z, by simp [obeyed, Answer.Grants], willing⟩
  · -- Nothing was sent in time: the stop waits, and the controller comes to its help.
    obtain ⟨bare, kept⟩ := not_or.mp ready
    replace bare := Decidable.not_not.mp bare
    have waits : told.obey = none := by simp [Stepper.obey, bare, kept]
    have attentive := h.attentive free bare kept
    obtain ⟨z, obeyed, willing⟩ := (encourages.willing h).obey (attentive told)
    exact ⟨z, by simp [waits, Answer.Grants, obeyed], willing⟩

theorem intercept_grants {reason : StopReason} {block : Block Stock} {scopes : Scopes} {z : Stepper}
    (h : (s.stop (StopEvent.of reason block scopes)).1.Grants control
      (s.stop (StopEvent.of reason block scopes)).2 z) :
    ((debugger : Debugger Stock Stepper).intercept reason block scopes s).1.Grants control
      ((debugger : Debugger Stock Stepper).intercept reason block scopes s).2 z := by
  simp only [debugger, debuggerIn]
  generalize s.stop (StopEvent.of reason block scopes) = x at h ⊢
  obtain ⟨answer, t⟩ := x
  cases answer with
  | now r => exact h
  | later ms r => exact h
  | once ready =>
    have found : ready (control t) = some (.ok (), z) := h
    simp [Answer.Grants, found]

/-- Under a controller that sends no abort, a willing stepper is a patient watcher. -/
theorem patience (encourages : Encourages control) :
    Patience (some (debugger : Debugger Stock Stepper)) control (Willing control) where
  stop := by
    rintro d ⟨⟩ reason block scopes n s going willing
    have going' : (StopEvent.of reason block scopes).reason ≠ .finish := going
    obtain ⟨z, grants, willing⟩ := willing.stop encourages going'
    exact ⟨z, intercept_grants grants, willing⟩
  finish := by
    rintro d ⟨⟩ block scopes n s -
    exact ⟨s.publish (.stopped (StopEvent.of .finish block scopes)), rfl, rfl⟩
  moves _ _ := encourages.willing
  fewer _ _ := Willing.fewer

end Stepper

/-- A debugger that grants every stop, whatever its state. -/
def Debugger.Obliges (d : Debugger Stock δ) (moves : δ → δ) : Prop :=
  ∀ reason block scopes y, ∃ z, (d.intercept reason block scopes y).1.Grants moves
    (d.intercept reason block scopes y).2 z

theorem Debugger.Obliges.patience {d : Debugger Stock δ} {moves : δ → δ} (h : d.Obliges moves) :
    Patience (some d) moves fun _ _ => True where
  stop := by
    rintro d ⟨⟩ reason block scopes n y - -
    obtain ⟨z, grants⟩ := h reason block scopes y
    exact ⟨z, grants, trivial⟩
  finish := by
    rintro d ⟨⟩ block scopes n y -
    exact h .finish block scopes y
  moves _ _ h := h
  fewer _ _ h := h

/-- A run alone and one in company: either neither comes back, or they agree and leave the site in
the same state. -/
def SameRun : Option (Run × World σ) → Option (Run × World (σ × δ)) → Prop :=
  Option.Rel fun x y => x.1.Agrees y.1 ∧ y.2.peers.1 = x.2.peers

/-- On a site that takes down what it is asked, a run that nobody watches, a run under a debugger
that grants every stop, and a run under a stepper that is sent on often enough agree, and so do the
requests. An evaluation comes to the result of a run over the same bindings with the same requests,
and a debugger that takes down what it is told has nothing to add. Where one of them crashes, so do
the others. -/
theorem watching_changes_nothing {σ : Type} (script : Script Stock)
    (untimed : script.settings.timeout = none) (site : Site σ)
    (w : World (σ × List (Notice Stock))) :
    (∀ (δ : Type) (d : Debugger Stock δ) (moves : δ → δ), d.Obliges moves →
      ∀ v : World ((σ × List (Notice Stock)) × δ), v.peers.1 = w.peers →
      SameRun (script.run (.alone site.recorded) w)
        (script.run (.beside site.recorded (some d) moves) v) ∧
      script.crashes (.beside site.recorded (some d) moves) v =
        script.crashes (.alone site.recorded) w) ∧
    (∀ control : Stepper → Stepper, Stepper.Encourages control →
      ∀ v : World ((σ × List (Notice Stock)) × Stepper), v.peers.1 = w.peers →
      .abort ∉ v.peers.2.commands →
      v.peers.2.Enough control (script.stopCount site.recorded w) →
      SameRun (script.run (.alone site.recorded) w)
        (script.run (.beside site.recorded (some Stepper.debugger) control) v) ∧
      script.crashes (.beside site.recorded (some Stepper.debugger) control) v =
        script.crashes (.alone site.recorded) w) ∧
    ∀ (δ : Type) (d : Debugger Stock δ) (moves : δ → δ) (presets : Bindings)
      (v : World ((σ × List (Notice Stock)) × δ × List (Notice Stock))), v.peers.1 = w.peers →
      Option.Rel (fun x y => y.1 = x.1.result ∧ y.2.peers.1 = x.2.peers ∧
          y.2.peers.2.2 = v.peers.2.2)
        (script.run (.alone { site.recorded with presets }) w)
        (script.evaluate (.beside site.recorded (some d.recorded) fun y => (moves y.1, y.2))
          presets v) ∧
      script.evaluationCrashes (.beside site.recorded (some d.recorded) fun y => (moves y.1, y.2))
          presets v = script.crashes (.alone { site.recorded with presets }) w := by
  refine ⟨?_, ?_, ?_⟩
  · intro δ d moves obliges v same
    exact ⟨Script.run_agrees untimed site.recorded obliges.patience same trivial,
      Script.crashes_agrees untimed site.recorded obliges.patience same trivial⟩
  · intro control encourages v same clean enough
    have patience : Patience (some (Stepper.debugger : Debugger Stock Stepper)) control _ :=
      Stepper.patience encourages
    exact ⟨Script.run_agrees untimed site.recorded patience same ⟨clean, enough⟩,
      Script.crashes_agrees untimed site.recorded patience same ⟨clean, enough⟩⟩
  · intro δ d moves presets v same
    have untouched (y : δ × List (Notice Stock)) (h : y.2 = v.peers.2.2) :
        (moves y.1, y.2).2 = v.peers.2.2 := h
    constructor
    · exact Script.evaluate_agrees untimed site.recorded (some d.recorded) untouched presets same rfl
    · exact Script.evaluationCrashes_agrees untimed site.recorded (some d.recorded) presets same

/-- A service is called, and a tag is attached. -/
def callThenTag : Block Stock :=
  .mk ⟨"site_call", some "call", .siteCall, [("SERVICE", .string "ping")], []⟩ []
    (some (.mk ⟨"log_tag", some "tag", .logTag, [("KEY", .string "k")], []⟩
      [("VALUE", .mk ⟨"text", some "text", .text, [("TEXT", .string "v")], []⟩ [] none)] none))

/-- A site that counts its calls and takes a moment to answer. -/
def counting : Site Nat :=
  { Site.bare [] with call := fun _ _ n => (.later 5 (.ok .null), n + 1) }

/-- Stepped once and then released, the script asks the same of the site and comes to the same. -/
theorem stepped_and_released :
    let script : Script Stock := ⟨callThenTag, {}⟩
    let w : World (Nat × List (Notice Stock)) := { peers := (0, []), origin := ⟨0, 0⟩ }
    let v : World ((Nat × List (Notice Stock)) × Stepper) :=
      { peers := (w.peers, { commands := [.step, .release] }), origin := ⟨0, 0⟩, now := 7 }
    ∃ run u run' u', script.run (.alone counting.recorded) w = some (run, u) ∧
      script.run (.beside counting.recorded (some Stepper.debugger) id) v = some (run', u') ∧
      run.error = none ∧ u.peers.1 = 1 ∧ run.Agrees run' ∧ u'.peers.1 = u.peers := by
  intro script w v
  have ended : (script.run (.alone counting.recorded) w).map (fun x => (x.1.error, x.2.peers.1)) =
      some (none, 1) := by
    decide +kernel
  have encourages : Stepper.Encourages id :=
    ⟨fun _ => rfl, fun _ gone => gone, fun s => ⟨[], by simp⟩⟩
  obtain ⟨same, -⟩ := (watching_changes_nothing script rfl counting w).2.1 id encourages v rfl
    (by decide) (.inr (.inr (.inl (by decide))))
  obtain ⟨⟨run, u⟩, alone, calls⟩ := Option.map_eq_some_iff.mp ended
  rw [alone] at same
  cases company : script.run (.beside counting.recorded (some Stepper.debugger) id) v with
  | none =>
    rw [company] at same
    cases same
  | some y =>
    rw [company] at same
    cases same with
    | some agrees =>
      obtain ⟨run', u'⟩ := y
      obtain ⟨error, count⟩ := Prod.mk.inj calls
      exact ⟨run, u, run', u', alone, rfl, error, count, agrees.1, agrees.2⟩

end BlockScript
