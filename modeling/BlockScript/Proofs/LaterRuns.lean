import BlockScript.Proofs.SteppedRuns
/-!
A stepper in one run after another.

A stepper is attached to all runs of a script. From one to the next it keeps the commands that no
stop has taken, and whether a stop took a release: then no later run stops either. This does not
depend on how a run ends, so a run may also be cut off at its time limit.
-/

namespace BlockScript

variable {β σ δ ε α : Type}

namespace Answer

/-- An answer that is waited for keeps a property of the collaborators. -/
def Keeps (P : ε → Prop) : Answer ε α → Prop
  | .once ready => ∀ e r e', P e → ready e = some (r, e') → P e'
  | _ => True

theorem keeps_left (P : δ → Prop) (answer : Answer σ α) : answer.left.Keeps fun e => P e.2 := by
  cases answer with
  | once ready =>
    intro e r e' holds came
    obtain ⟨q, -, eq⟩ := Option.map_eq_some_iff.mp came
    cases eq
    exact holds
  | now | later => trivial

theorem Keeps.right {P : δ → Prop} {answer : Answer δ α} (h : answer.Keeps P) :
    (answer.right : Answer (σ × δ) α).Keeps fun e => P e.2 := by
  cases answer with
  | once ready =>
    intro e r e' holds came
    obtain ⟨q, ready, eq⟩ := Option.map_eq_some_iff.mp came
    cases eq
    exact h e.2 q.1 q.2 holds ready
  | now | later => trivial

end Answer

namespace Environment

/-- Whatever the collaborators are asked and do meanwhile, a property of them is kept. -/
structure Upholds (env : Environment β ε) (P : ε → Prop) : Prop where
  react : ∀ e, P e → P (env.react e)
  abort : ∀ e, P e → P (env.abort e)
  call : ∀ service args e, P e →
    (env.site.call service args e).1.Keeps P ∧ P (env.site.call service args e).2
  spawn : ∀ name presets e, P e →
    (env.site.spawn name presets e).1.Keeps P ∧ P (env.site.spawn name presets e).2
  stop : ∀ d ∈ env.debugger, ∀ reason block scopes e, reason ≠ .finish → P e →
    (d.intercept reason block scopes e).1.Keeps P ∧ P (d.intercept reason block scopes e).2

theorem passTime_peers (due : Option (Nat × Except ScriptError α)) (w : World ε) :
    (passTime due w).2.peers = w.peers := by
  unfold passTime
  split
  · rfl
  · rfl
  · rfl
  · split <;> rfl

namespace Upholds

variable {env : Environment β ε} {P : ε → Prop} (upholds : env.Upholds P) {w : World ε}
  (holds : P w.peers)
include upholds holds

theorem passAbort (due : Option Nat) : P (env.passAbort due w).peers := by
  unfold Environment.passAbort
  split
  · exact holds
  · split
    · exact upholds.abort w.peers holds
    · exact holds

theorem suspend (raced : Bool) (due : Option (Nat × Except ScriptError α))
    {ready : ε → Option (Except ScriptError α × ε)} (keeps : (Answer.once ready).Keeps P) :
    P (env.suspend raced due ready w).2.peers := by
  rw [suspend_eq_settle]
  split
  · exact holds
  · have moved := upholds.react w.peers holds
    simp only [settle]
    split
    · exact moved
    · split
      · next r e came => exact keeps _ r e moved came
      · have passed : P (env.passAbort _ { w with peers := env.react w.peers }).peers :=
          upholds.passAbort moved (due.map Prod.fst)
        generalize env.passAbort (due.map Prod.fst) { w with peers := env.react w.peers } = u
          at passed ⊢
        split
        · exact passed
        · rw [passTime_peers]
          exact passed

theorem await (raced : Bool) {answer : Answer ε α} (keeps : answer.Keeps P) :
    P (env.await raced answer w).2.peers := by
  cases answer with
  | now r => exact holds
  | later ms r =>
    simp only [Environment.await]
    split
    · exact holds
    · apply upholds.suspend holds raced
      intro e r e' _ came
      cases came
  | once ready => exact upholds.suspend holds raced none keeps

theorem race {ask : ε → Answer ε α × ε} (keeps : (ask w.peers).1.Keeps P ∧ P (ask w.peers).2) :
    P (env.race ask w).2.peers := by
  simp only [Environment.race]
  split
  · exact holds
  · exact upholds.await (w := { w with peers := (ask w.peers).2 }) keeps.2 true keeps.1

theorem perform {a : Action β}
    (usual : a.Plain ∨ a = .openScope ∨ ∃ previous, a = .closeScope previous) (s : RunState) :
    P (env.perform a s w).2.2.peers := by
  cases a with
  | stop reason block =>
    have going : reason ≠ .finish := by simpa [Action.Plain] using usual
    simp only [Environment.perform]
    split
    · exact holds
    · next d watched =>
      exact upholds.race holds (upholds.stop d watched reason block s.scopes w.peers going holds)
  | call service args => exact upholds.race holds (upholds.call service args w.peers holds)
  | spawn name presets =>
    have raced := upholds.race holds (upholds.spawn name presets w.peers holds)
    simp only [Environment.perform]
    split
    · exact raced
    · exact raced
  | wait | sleep | openRootScope | scopeDepth | readLog => simp [Action.Plain] at usual
  | _ => exact holds

theorem run {p : Program β α}
    (usual : p.All fun a => a.Plain ∨ a = .openScope ∨ ∃ previous, a = .closeScope previous)
    (s : RunState) : P (env.run p s w).2.2.peers := by
  induction p generalizing s w with
  | done r => exact holds
  | act a resume ih =>
    obtain ⟨now, later⟩ := usual
    have kept := upholds.perform holds now s
    rcases performed : env.perform a s w with ⟨ending, t, v⟩
    rw [performed] at kept
    simp only [Environment.run, performed]
    cases ending with
    | result reply => exact ih reply kept (later reply) t
    | cut | stuck | crash => exact kept

end Upholds

/-- Of somebody beside a site, what they keep themselves is kept. -/
theorem upholds_beside (site : Site σ) {d : Debugger β δ} {moves : δ → δ} {P : δ → Prop}
    (moved : ∀ y, P y → P (moves y))
    (stop : ∀ reason block scopes y, reason ≠ .finish → P y →
      (d.intercept reason block scopes y).1.Keeps P ∧ P (d.intercept reason block scopes y).2) :
    (beside site (some d) moves).Upholds fun e => P e.2 where
  react e := moved e.2
  abort _ holds := holds
  call _ _ _ holds := ⟨Answer.keeps_left P _, holds⟩
  spawn _ _ _ holds := ⟨Answer.keeps_left P _, holds⟩
  stop := by
    rintro _ ⟨⟩ reason block scopes e going holds
    obtain ⟨keeps, kept⟩ := stop reason block scopes e.2 going holds
    exact ⟨keeps.right, kept⟩

end Environment

namespace Session

/-- The first of the commands sent were taken, and the stepper runs free if a release is among
them. -/
def Took (sent : List StepCommand) (x : Session) : Prop :=
  ∃ taken left published, sent = taken ++ left ∧
    x.Shows ⟨decide (.release ∈ taken), left, published⟩

variable {sent : List StepCommand} {x : Session}

theorem Took.publish (h : Took sent x) (e : StepEvent) :
    Took sent { x with stepper := x.stepper.publish e } := by
  obtain ⟨taken, left, published, split, shows⟩ := h
  exact ⟨taken, left, published ++ [e], split, shows.publish e⟩

theorem Took.obey (h : Took sent x) {r : Except ScriptError Unit} {s : Stepper}
    (obeyed : x.stepper.obey = some (r, s)) : Took sent { x with stepper := s } := by
  obtain ⟨taken, left, published, rfl, free, pending, events, present⟩ := h
  cases queue : x.stepper.commands with
  | nil => simp [Stepper.obey, queue, present] at obeyed
  | cons c rest =>
    rw [queue] at pending
    obtain rfl : c :: (rest ++ x.unsent) = left := pending
    refine ⟨taken ++ [c], rest ++ x.unsent, published, by simp, ?_⟩
    cases c with
    | step | abort =>
      simp only [Stepper.obey, queue, Option.some.injEq, Prod.mk.injEq] at obeyed
      obtain ⟨-, rfl⟩ := obeyed
      exact ⟨by simp [free], rfl, events, present⟩
    | release =>
      simp only [Stepper.obey, queue, Option.some.injEq, Prod.mk.injEq] at obeyed
      obtain ⟨-, rfl⟩ := obeyed
      exact ⟨by simp, rfl, events, present⟩

theorem Took.stop (h : Took sent x) {reason : StopReason} (going : reason ≠ .finish)
    (block : Block Stock) (scopes : Scopes) :
    (debugger.intercept reason block scopes x).1.Keeps (Took sent) ∧
      Took sent (debugger.intercept reason block scopes x).2 := by
  have told := h.publish (.stopped (.of reason block scopes))
  by_cases free : x.stepper.free = true
  · rw [intercept_free going block scopes free]
    exact ⟨trivial, h⟩
  · have bound : x.stepper.free = false := by simpa using free
    cases obeyed : (x.stepper.publish (.stopped (.of reason block scopes))).obey with
    | some q =>
      rw [intercept_obeyed going block scopes bound obeyed]
      exact ⟨trivial, told.obey obeyed⟩
    | none =>
      rw [intercept_waiting going block scopes bound obeyed]
      refine ⟨?_, told⟩
      intro e r e' took came
      obtain ⟨q, obeyed, eq⟩ := Option.map_eq_some_iff.mp came
      cases eq
      exact took.obey obeyed

end Session

namespace Script

variable {script : Script Stock} {site : Site σ} {control : Session → Session}
  {x u : World (σ × Session)} {run : Run}
  (ended : script.run (.stepped site control) x = some (run, u))
include ended

/-- What is kept at all stops and meanwhile holds when the end of a run is reported. -/
theorem run_upholds {P : Session → Prop}
    (upholds : (Environment.stepped site control).Upholds fun e => P e.2) (holds : P x.peers.2) :
    ∃ y, P y ∧ ∀ st : Standing, y.Shows st →
      u.peers.2.Shows { st with published := st.published ++ script.lastEvents run } := by
  obtain ⟨evaluated, s, y, finish, z, root, last, left⟩ := run_parts ended
  refine ⟨y.peers.2, ?_, fun st shows => report_shows root last left shows⟩
  have kept := upholds.run (w := script.limited x) holds script.root.program_orderly.all
    (script.initial (.stepped site control) x)
  rw [evaluateRoot_eq_conclude] at root
  rcases ran : (Environment.stepped site control).run script.root.program
    (script.initial (.stepped site control) x) (script.limited x) with ⟨ending, t, v⟩
  rw [ran] at root kept
  cases ending with
  | result r =>
    cases root
    exact kept
  | cut =>
    cases root
    exact kept
  | stuck | crash => cases root

theorem run_took (serves : Session.Serves control) {sent : List StepCommand}
    (fresh : x.peers.2.Took sent) : u.peers.2.Took sent := by
  have moved (y : Session) (took : y.Took sent) : (control y).Took sent := by
    obtain ⟨taken, left, published, split, shows⟩ := took
    exact ⟨taken, left, published, split, serves.shows y _ shows⟩
  obtain ⟨y, ⟨taken, left, published, split, shows⟩, report⟩ := run_upholds ended
    (Environment.upholds_beside site moved fun _ block scopes _ going took =>
      took.stop going block scopes) fresh
  exact ⟨taken, left, _, split, report _ shows⟩

/-- A stepper that runs free from the start publishes only the end of a run. -/
theorem run_unstopped (serves : Session.Serves control) {st : Standing} (free : st.free = true)
    (shows : x.peers.2.Shows st) :
    u.peers.2.Shows { st with published := st.published ++ script.lastEvents run } := by
  have stop (reason : StopReason) (block : Block Stock) (scopes : Scopes) (y : Session)
      (going : reason ≠ .finish) (shows : y.Shows st) :
      (Session.debugger.intercept reason block scopes y).1.Keeps (·.Shows st) ∧
        (Session.debugger.intercept reason block scopes y).2.Shows st := by
    rw [Session.intercept_free going block scopes (shows.free.trans free)]
    exact ⟨trivial, shows⟩
  obtain ⟨y, shows, report⟩ := run_upholds ended
    (Environment.upholds_beside site (fun y => serves.shows y st) stop) shows
  exact report st shows

end Script

/-- A run takes the first of the commands. If a release is among them, no later run of the script
stops before its end or takes a command, whatever its time limit. Without time limits, such a run is
as if nobody watched it, also if it crashes, and after a run that took no release the next one stops
like the first. -/
theorem release_outlasts_its_run {σ δ : Type} (script : Script Stock) (site : Site σ)
    {control control' : Session → Session} (serves : Session.Serves control)
    (serves' : Session.Serves control') {x u : World (σ × Session)} {sent : List StepCommand}
    (fresh : x.peers.2.Shows ⟨false, sent, []⟩) {first : Run}
    (ended : script.run (.stepped site control) x = some (first, u)) :
    ∃ taken left published, sent = taken ++ left ∧
      u.peers.2.Shows ⟨decide (.release ∈ taken), left, published⟩ ∧
      ∀ (y : World (σ × Session)) (sent' : List StepCommand) (published' : List StepEvent),
        y.peers.2.Shows ⟨decide (.release ∈ taken), sent', published'⟩ →
        (.release ∈ taken →
          ∀ second u', script.run (.stepped site control') y = some (second, u') →
            u'.peers.2.Shows ⟨true, sent', published' ++ script.lastEvents second⟩) ∧
        (script.settings.timeout = none →
          ∀ (d : Debugger Stock δ) (moves : δ → δ), d.Obliges moves →
          ∀ (w : World σ) (v : World (σ × δ)), v.peers.1 = w.peers → y.peers.1 = w.peers →
          let stops := stopEvents (script.history (.beside site (some d) moves) v)
          let k := sent'.findIdx (· ≠ .step)
          (.release ∈ taken →
            SameRun (script.run (.alone site) w) (script.run (.stepped site control') y) ∧
              script.crashes (.stepped site control') y = script.crashes (.alone site) w) ∧
          (.release ∉ taken → k < sent'.length ∨ stops.length ≤ sent'.length →
            ∀ second u', script.run (.stepped site control') y = some (second, u') →
              let n := min stops.length (k + 1)
              ∃ free, u'.peers.2.Shows
                ⟨free, sent'.drop n,
                  published' ++ (stops.take n).map .stopped ++ script.lastEvents second⟩)) := by
  obtain ⟨taken, left, published, split, stands⟩ :=
    Script.run_took ended serves ⟨[], sent, [], rfl, fresh⟩
  refine ⟨taken, left, published, split, stands, ?_⟩
  intro y sent' published' shows
  constructor
  · intro released second u' ended'
    rw [decide_eq_true released] at shows
    exact Script.run_unstopped ended' serves' rfl shows
  · intro untimed d moves obliges w v same same' stops k
    constructor
    · intro released
      have runs : decide (.release ∈ taken) = true := decide_eq_true released
      exact (Script.run_passed untimed serves' shows obliges same same' (.inl runs)).2
    · intro bound enough second u' ended'
      have held : decide (.release ∈ taken) = false := decide_eq_false bound
      exact Script.ends_stepped untimed serves' shows obliges same same' held enough ended'

/-- A script of one block. -/
def oneText : Script Stock :=
  ⟨.mk ⟨"text", some "a", .text, [("TEXT", .string "A")], []⟩ [] none, {}⟩

/-- Sent two steps and an abort, a stepper takes the steps in the first run and the abort in the
second. -/
theorem stepped_through_then_aborted :
    let env : Environment Stock (Unit × Session) := .stepped (Site.bare []) Session.attend
    let x : World (Unit × Session) :=
      { peers := ((), { stepper := {}, unsent := [.step, .step, .abort] }), origin := ⟨0, 0⟩ }
    ∃ first u second u', oneText.run env x = some (first, u) ∧
      oneText.run env u = some (second, u') ∧ second.error = some .aborted ∧
      u'.peers.2.stepper.commands ++ u'.peers.2.unsent = [] ∧
      u'.peers.2.read ++ u'.peers.2.stepper.events =
        [.stopped ⟨some "a", "text", .enter, 1⟩, .stopped ⟨some "a", "text", .leave, 1⟩,
          .stopped ⟨some "a", "text", .finish, 1⟩, .finished none,
          .stopped ⟨some "a", "text", .enter, 1⟩, .stopped ⟨some "a", "text", .finish, 1⟩,
          .finished (some "Script aborted")] := by
  intro env x
  let granting : Debugger Stock Unit :=
    { intercept := fun _ _ _ e => (.now (.ok ()), e), finished := fun _ e => e }
  let v : World (Unit × Unit) := { peers := ((), ()), origin := ⟨0, 0⟩ }
  have obliges : granting.Obliges id := fun _ _ _ y => ⟨y, rfl, rfl⟩
  have ran : (oneText.run env x).bind (fun a => (oneText.run env a.2).map fun b =>
      (a.2.peers.2.stepper.commands ++ a.2.peers.2.unsent,
        a.2.peers.2.read ++ a.2.peers.2.stepper.events, b.1.error)) =
      some ([.abort], [.stopped ⟨some "a", "text", .enter, 1⟩,
        .stopped ⟨some "a", "text", .leave, 1⟩, .stopped ⟨some "a", "text", .finish, 1⟩,
        .finished none], some .aborted) := by
    decide +kernel
  have stops : stopEvents (oneText.history (.beside (Site.bare []) (some granting) id) v) =
      [⟨some "a", "text", .enter, 1⟩, ⟨some "a", "text", .leave, 1⟩] := by
    decide +kernel
  obtain ⟨⟨first, u⟩, ended, rest⟩ := Option.bind_eq_some_iff.mp ran
  obtain ⟨⟨second, u'⟩, ended', facts⟩ := Option.map_eq_some_iff.mp rest
  simp only [Prod.mk.injEq] at facts
  obtain ⟨pending, published, error⟩ := facts
  obtain ⟨taken, left, told, split, stands, later⟩ := release_outlasts_its_run oneText
    (Site.bare []) Session.serves_attend Session.serves_attend (x := x) ⟨rfl, rfl, rfl, rfl⟩ ended
  obtain rfl : left = [.abort] := stands.pending.symm.trans pending
  obtain rfl : taken = [.step, .step] := List.append_cancel_right split.symm
  have told_eq : told = _ := stands.published.symm.trans published
  obtain ⟨-, unreleased⟩ :=
    (later u _ _ stands).2 rfl granting id obliges (u.map Prod.fst) v rfl rfl
  obtain ⟨free, stands'⟩ := unreleased (by decide) (.inl (by decide)) second u' ended'
  rw [stops, told_eq] at stands'
  refine ⟨first, u, second, u', ended, ended', error, stands'.pending,
    stands'.published.trans ?_⟩
  rw [Script.lastEvents, error]
  rfl

/-- The second run of a script under a stepper whose first stop was released. Two steps are sent
for it, and a block is entered and left in it, but it stops only when it is over. -/
theorem released_in_an_earlier_run :
    let env : Environment Stock (Unit × Session) := .stepped (Site.bare []) Session.attend
    let x : World (Unit × Session) :=
      { peers := ((), { stepper := {}, unsent := [.release, .step, .step] }), origin := ⟨0, 0⟩ }
    let granting : Debugger Stock Unit :=
      { intercept := fun _ _ _ e => (.now (.ok ()), e), finished := fun _ e => e }
    let v : World (Unit × Unit) := { peers := ((), ()), origin := ⟨0, 0⟩ }
    stopEvents (oneText.history (.beside (Site.bare []) (some granting) id) v) =
      [⟨some "a", "text", .enter, 1⟩, ⟨some "a", "text", .leave, 1⟩] ∧
    ∃ first u second u', oneText.run env x = some (first, u) ∧
      oneText.run env u = some (second, u') ∧
      u.peers.2.stepper.commands ++ u.peers.2.unsent = [.step, .step] ∧
      u'.peers.2.stepper.commands ++ u'.peers.2.unsent = [.step, .step] ∧
      u'.peers.2.read ++ u'.peers.2.stepper.events =
        u.peers.2.read ++ u.peers.2.stepper.events ++
          [.stopped ⟨some "a", "text", .finish, 1⟩, .finished none] := by
  intro env x granting v
  have ran : (oneText.run env x).bind (fun a => (oneText.run env a.2).map fun b =>
      (a.2.peers.2.stepper.commands ++ a.2.peers.2.unsent,
        b.2.peers.2.stepper.commands ++ b.2.peers.2.unsent,
        decide (b.2.peers.2.read ++ b.2.peers.2.stepper.events =
          a.2.peers.2.read ++ a.2.peers.2.stepper.events ++
            [.stopped ⟨some "a", "text", .finish, 1⟩, .finished none]))) =
      some ([.step, .step], [.step, .step], true) := by
    decide +kernel
  obtain ⟨⟨first, u⟩, ended, rest⟩ := Option.bind_eq_some_iff.mp ran
  obtain ⟨⟨second, u'⟩, ended', facts⟩ := Option.map_eq_some_iff.mp rest
  simp only [Prod.mk.injEq, decide_eq_true_eq] at facts
  obtain ⟨pending, pending', published⟩ := facts
  exact ⟨by decide +kernel, first, u, second, u', ended, ended', pending, pending', published⟩

end BlockScript
