import BlockScript.Proofs.Moments
/-!
What an abort stops.

Once the signal is raised nobody is told or asked anything, no block is entered, and what is left of
the chain runs to its end without waiting. A wait during which the signal is raised ends the run,
with the abort or, if the time of the run had run out before the wait, with that. The last
interception takes place all the same.
-/

namespace BlockScript

variable {β ε α γ : Type}

namespace World

/-- The time of the run has run out. -/
def overdue (w : World ε) : Bool :=
  w.deadline.any (· ≤ w.now)

end World

namespace Environment

variable {env : Environment β ε}

theorem race_raised {w : World ε} (raised : env.aborted w.peers = true)
    (ask : ε → Answer ε α × ε) : env.race ask w = (.result (.error .aborted), w) := by
  simp only [race, raised, ↓reduceIte]

theorem untold_effects (env : Environment β ε) (a : Action β) (s : RunState) (w : World ε)
    (n : Notice β) : .told n ∉ env.effects a s w := by
  unfold effects
  split <;> try simp
  split <;> simp

/-- Under a raised signal an action comes to something at once, if only to a crash, and nobody is
told of it. -/
theorem perform_raised {a : Action β}
    (usual : a.Plain ∨ a = .openScope ∨ ∃ previous, a = .closeScope previous) (s : RunState)
    {w : World ε} (raised : env.aborted w.peers = true) :
    ((∃ r t, env.perform a s w = (.result r, t, w)) ∨ ∃ t, env.perform a s w = (.crash, t, w)) ∧
      ∀ n, .told n ∉ env.events a s w := by
  refine ⟨?_, ?_⟩
  · obtain plain | rfl | ⟨previous, rfl⟩ := usual
    · cases a with
      | stop reason block =>
        cases watched : env.debugger with
        | none => exact .inl ⟨_, _, by simp only [perform, watched]; rfl⟩
        | some d => exact .inl ⟨_, _, by simp only [perform, watched, race_raised raised]; rfl⟩
      | call service args => exact .inl ⟨_, _, by simp only [perform, race_raised raised]; rfl⟩
      | spawn name presets => exact .inl ⟨_, _, by simp only [perform, race_raised raised]; rfl⟩
      | reserve count =>
        cases granted : env.site.grants count w.peers with
        | true => exact .inl ⟨.ok (), s, by simp only [perform, granted, ↓reduceIte]⟩
        | false => exact .inr ⟨s, by simp only [perform, granted, Bool.false_eq_true, ↓reduceIte]⟩
      | checkAbort | lookup | assign | assignGlobal | attach => exact .inl ⟨_, _, rfl⟩
      | crash => exact .inr ⟨s, rfl⟩
      | openScope | openRootScope | closeScope | wait | sleep | scopeDepth | readLog => cases plain
    · exact .inl ⟨_, _, rfl⟩
    · exact .inl ⟨_, _, rfl⟩
  · intro n
    have nobody : env.notices a s w.peers = [] := by simp only [notices, raised, ↓reduceIte]
    rw [events, nobody]
    exact env.untold_effects a s w n

variable {p q : Program β α} {s t : RunState} {w v : World ε} {past : List (Event β)}

/-- From a moment on at which the signal is raised, a program runs to its end or to a crash. -/
theorem run_raised
    (usual : p.All fun a => a.Plain ∨ a = .openScope ∨ ∃ previous, a = .closeScope previous)
    (raised : env.aborted w.peers = true) :
    ((∃ r t, env.run p s w = (.result r, t, w)) ∨ ∃ t, env.run p s w = (.crash, t, w)) ∧
      ∀ n, .told n ∉ env.history p s w := by
  induction p generalizing s with
  | done r => exact ⟨.inl ⟨r, s, rfl⟩, by simp [history]⟩
  | act a resume ih =>
    obtain ⟨⟨reply, t, step⟩ | ⟨t, step⟩, quiet⟩ := perform_raised usual.1 s raised
    · obtain ⟨ran, silence⟩ := ih reply (usual.2 reply) (s := t)
      simp only [run, history, step, List.mem_append, not_or]
      exact ⟨ran, fun n => ⟨quiet n, silence n⟩⟩
    · simp only [run, history, step, List.append_nil]
      exact ⟨.inr ⟨t, rfl⟩, quiet⟩

/-- The signal stays raised, since nothing moves any more. -/
theorem Reaches.world_of_raised (h : env.Reaches p s w past q t v)
    (usual : p.All fun a => a.Plain ∨ a = .openScope ∨ ∃ previous, a = .closeScope previous)
    (raised : env.aborted w.peers = true) : v = w := by
  induction h with
  | here => rfl
  | later step rest ih =>
    obtain ⟨⟨r, t, now⟩ | ⟨t, now⟩, -⟩ := perform_raised usual.1 _ raised
    · rw [now] at step
      cases step
      exact ih (usual.2 _) raised
    · rw [now] at step
      cases step

end Environment

namespace Action

def isLook : Action β → Bool
  | .checkAbort => true
  | _ => false

end Action

namespace Program

/-- Blocks are entered only right after a look at the signal that found it down. The flag says
whether the last action was such a look. -/
def Guarded : Bool → Program β α → Prop
  | _, .done _ => True
  | looked, .act a resume =>
    (∀ b, a = .stop .enter b → looked = true) ∧
      ∀ reply, (resume reply).Guarded (a.isLook && reply.isOk)

theorem Guarded.mono {p : Program β α} (h : p.Guarded false) (looked : Bool) :
    p.Guarded looked := by
  cases p with
  | done r => trivial
  | act a resume => exact ⟨fun b entered => absurd (h.1 b entered) Bool.false_ne_true, h.2⟩

theorem Guarded.bind {p : Program β α} {looked : Bool} {f : α → Program β γ}
    (first : p.Guarded looked) (rest : ∀ a, (f a).Guarded false) : (p >>= f).Guarded looked := by
  change (p.bind f).Guarded looked
  induction p generalizing looked with
  | done r =>
    cases r with
    | ok a => exact (rest a).mono looked
    | error e => trivial
  | act a resume ih => exact ⟨first.1, fun reply => ih reply (first.2 reply)⟩

theorem Guarded.closing {p : Program β α} {looked : Bool} (h : p.Guarded looked)
    (previous : Nat) : (p.closing previous).Guarded looked := by
  induction p generalizing looked with
  | done r => exact ⟨nofun, fun _ => trivial⟩
  | act a resume ih => exact ⟨h.1, fun reply => ih reply (h.2 reply)⟩

theorem guarded_perform {a : Action β} (other : ∀ b, a ≠ .stop .enter b) :
    (perform a).Guarded false :=
  ⟨fun b entered => absurd entered (other b), fun _ => trivial⟩

theorem compositional_guarded :
    Compositional (fun _ (p : Program β _) => p.Guarded false)
      fun a => ∀ b, a ≠ .stop .enter b where
  done _ := trivial
  act _ other := guarded_perform other
  bind := Guarded.bind
  inScope body :=
    (guarded_perform (a := .openScope) nofun).bind fun previous => body.closing previous

/-- A block is entered after a look. -/
theorem guarded_enter (b : Block β) :
    Guarded false (perform .checkAbort >>= fun _ => perform (.stop .enter b)) := by
  refine ⟨nofun, ?_⟩
  intro reply
  cases reply with
  | ok _ => exact ⟨fun _ _ => rfl, fun _ => trivial⟩
  | error e => trivial

end Program

theorem Block.program_guarded (b : Block Stock) : b.program.Guarded false := by
  have c : Program.Compositional (fun _ (p : Program Stock _) => p.Guarded false)
      fun a => ∀ b, a ≠ .stop .enter b := Program.compositional_guarded
  refine b.program_holds c Program.guarded_enter (fun b => c.act (.stop .leave b) nofun)
    (fun _ _ _ _ _ => c.spawnChild nofun nofun nofun) ?_
  intro d _ a performs
  obtain rfl | rfl | ⟨count, rfl⟩ | ⟨service, args, rfl⟩ | ⟨key, value, rfl⟩ |
      ⟨name, -, rfl | ⟨value, rfl | rfl⟩⟩ :=
    Stock.performs_cases performs <;> exact nofun

namespace Environment

variable {env : Environment β ε} {p : Program β α} {s t : RunState} {w v : World ε}
  {past : List (Event β)}

/-- Whenever a block is entered, the signal is down. -/
theorem Meets.entered {looked : Bool} {b : Block β} (guarded : p.Guarded looked)
    (down : looked = true → env.aborted w.peers = false)
    (h : env.Meets p s w past (.stop .enter b) t v) : env.aborted v.peers = false := by
  obtain ⟨resume, reached⟩ := h
  generalize left : Program.act (.stop .enter b) resume = q at reached
  induction reached generalizing looked with
  | here =>
    subst left
    exact down (guarded.1 b rfl)
  | @later a resume s t s' w v w' reply past q step rest ih =>
    refine ih (guarded.2 reply) ?_ left
    intro looked
    cases a with
    | checkAbort =>
      cases step
      by_contra raised
      rw [Bool.not_eq_false] at raised
      simp [raised, Except.isOk, Except.toBool] at looked
    | _ => cases looked

/-- The signal is raised while something is waited for: by whoever was asked, by the collaborators
as they move on, or on schedule, no later than what is due and the deadline. -/
def RaisedWaiting (env : Environment β ε) (due : Option Nat)
    (ready : ε → Option (Except ScriptError α × ε)) (w : World ε) : Prop :=
  env.aborted w.peers = true ∨ env.aborted (env.react w.peers) = true ∨
  (ready (env.react w.peers) = none ∧ ∃ t, w.abortAt = some t ∧ due.all (t ≤ ·) = true ∧
    w.deadline.all (t ≤ ·) = true ∧ env.aborted (env.abort (env.react w.peers)) = true)

/-- The answer to a question is waited for, and the signal is raised meanwhile. -/
def RaisedAsking (env : Environment β ε) (ask : ε → Answer ε α × ε) (w : World ε) : Prop :=
  match (ask w.peers).1 with
  | .now _ => False
  | .later ms _ => ms ≠ 0 ∧ env.RaisedWaiting (some (w.now + ms))
      (fun _ => (none : Option (Except ScriptError α × ε))) { w with peers := (ask w.peers).2 }
  | .once ready => env.RaisedWaiting none ready { w with peers := (ask w.peers).2 }

/-- The signal is raised while a stop, a call or the start of a child is pending. -/
def RaisedDuring (env : Environment β ε) (a : Action β) (s : RunState) (w : World ε) : Prop :=
  match a with
  | .stop reason block =>
    ∃ d, env.debugger = some d ∧ env.RaisedAsking (d.intercept reason block s.scopes) w
  | .call service args => env.RaisedAsking (env.site.call service args) w
  | .spawn name presets => env.RaisedAsking (env.site.spawn name presets) w
  | _ => False

/-- Whoever moves on while the script waits leaves a raised signal raised. -/
def Lasting (env : Environment β ε) : Prop :=
  ∀ e, env.aborted e = true → env.aborted (env.react e) = true

theorem suspend_interrupted (lasting : env.Lasting) {due : Option (Nat × Except ScriptError α)}
    {ready : ε → Option (Except ScriptError α × ε)} {w : World ε}
    (raised : env.RaisedWaiting (due.map Prod.fst) ready w) :
    ∃ v, env.suspend true due ready w =
      (if w.overdue then .cut else .result (.error .aborted), v) := by
  have suspended := env.suspend_eq_settle true due ready w
  change _ = if w.overdue then _ else _ at suspended
  rw [suspended]
  by_cases late : w.overdue = true
  · exact ⟨w, by simp only [late, ↓reduceIte]⟩
  · simp only [late, Bool.false_eq_true, ↓reduceIte, settle, Bool.true_and]
    by_cases soon : env.aborted (env.react w.peers) = true
    · exact ⟨_, by rw [if_pos soon]⟩
    · rw [if_neg soon]
      obtain asked | moved | ⟨unready, t, scheduled, first, before, signal⟩ := raised
      · exact absurd (lasting _ asked) soon
      · exact absurd moved soon
      · have passed : env.passAbort (due.map Prod.fst) { w with peers := env.react w.peers } =
            { w with peers := env.abort (env.react w.peers), now := max w.now t,
                     abortAt := none } := by
          simp only [passAbort, scheduled, first, before, Bool.and_self, ↓reduceIte]
        simp only [unready, passed, signal, ↓reduceIte]
        exact ⟨_, rfl⟩

/-- A question during which the signal is raised comes to nothing but the abort, or the end of the
time if that had come before. -/
theorem race_interrupted (lasting : env.Lasting) {ask : ε → Answer ε α × ε} {w : World ε}
    (down : env.aborted w.peers = false) (raised : env.RaisedAsking ask w) :
    ∃ v, env.race ask w =
      (if w.overdue then .cut else .result (.error .aborted), v) := by
  simp only [race, down, Bool.false_eq_true, ↓reduceIte]
  unfold RaisedAsking at raised
  split at raised
  · cases raised
  · next ms r answer =>
    simp only [answer, await, if_neg raised.1]
    exact suspend_interrupted lasting raised.2
  · next ready answer =>
    simp only [answer, await]
    exact suspend_interrupted lasting raised

theorem perform_interrupted (lasting : env.Lasting) {a : Action β} {s : RunState} {w : World ε}
    (down : env.aborted w.peers = false) (raised : env.RaisedDuring a s w) :
    (∃ v, env.perform a s w =
      (if w.overdue then .cut else .result (.error .aborted), s, v)) ∧
    env.effects a s w = [] := by
  cases a with
  | stop reason block =>
    obtain ⟨d, watched, asked⟩ := raised
    obtain ⟨v, raced⟩ := race_interrupted lasting down asked
    exact ⟨⟨v, by simp only [perform, watched, raced]⟩, rfl⟩
  | call service args =>
    obtain ⟨v, raced⟩ := race_interrupted lasting down raised
    exact ⟨⟨v, by simp only [perform, raced]⟩, rfl⟩
  | spawn name presets =>
    obtain ⟨v, raced⟩ := race_interrupted lasting down raised
    simp only [perform, effects, raced]
    by_cases late : w.overdue = true
    · simp only [late, ↓reduceIte, and_true]
      exact ⟨v, rfl⟩
    · simp only [late, Bool.false_eq_true, ↓reduceIte, and_true]
      exact ⟨v, rfl⟩
  | _ => cases raised

variable {p : Program β α} {s t : RunState} {w v : World ε} {past : List (Event β)}

/-- After an action during which the signal was raised no block is entered. -/
theorem Meets.entered_before (lasting : env.Lasting) (relays : p.Relays) {a : Action β}
    (h : env.Meets p s w past a t v) (down : env.aborted v.peers = false)
    (raised : env.RaisedDuring a t v) {past' : List (Event β)} {b : Block β} {t' : RunState}
    {v' : World ε} (k : env.Meets p s w past' (.stop .enter b) t' v') : past' <+: past := by
  obtain ⟨resume, reached⟩ := h
  obtain ⟨resume', reached'⟩ := k
  obtain ⟨more, rfl, after⟩ | ⟨more, rfl, -⟩ := reached.total reached'
  · -- What comes after the action is the closing of scopes.
    obtain ⟨⟨u, performed⟩, -⟩ := perform_interrupted lasting down raised
    cases after with
    | here => simp
    | later step rest =>
      rw [performed] at step
      by_cases late : v.overdue = true
      · simp [late] at step
      · simp only [late, Bool.false_eq_true, ↓reduceIte, Prod.mk.injEq, Ending.result.injEq] at step
        obtain ⟨rfl, rfl, rfl⟩ := step
        have other (previous : Nat) : a ≠ .closeScope previous := by
          rintro rfl
          cases raised
        cases rest.failsWith ((reached.relays relays).1 other .aborted)
  · exact List.prefix_append _ _

end Environment

namespace Run

/-- A run that was aborted, and whose record says so. -/
structure Aborted (run : Run) : Prop where
  error : run.error = some .aborted
  outcome : run.outcome = .aborted
  details : run.log.details = "aborted"

end Run

namespace Script

variable {script : Script Stock} {env : Environment Stock ε} {w : World ε} {run : Run}

theorem Accounts.aborted {past : List (Event Stock)} (h : script.Accounts env w past run)
    (error : run.error = some .aborted) : run.Aborted := by
  obtain ⟨w', scopes, ended, -⟩ := h.ended
  obtain ⟨evaluated, s, v, time, -, log⟩ := run_log ended
  have filed : run.Filed := Run.filed_of_verdict (by rw [log]; rfl) (by rw [log])
  exact ⟨error, (filed.aborted error).1, (filed.aborted error).2⟩

/-- A chain that runs to its end after the signal was raised is accounted for like any other. -/
theorem accounts_of_raised (concludes : env.Concludes) {past : List (Event Stock)}
    {q : Program Stock Value} {s : RunState} {v : World ε}
    (reached : env.Reaches script.root.program (script.initial env w) (script.limited w) past q s v)
    (raised : env.aborted v.peers = true) (intact : ¬script.crashes env w) :
    ∃ run, script.Accounts env w (past ++ env.history q s v) run := by
  have usual := reached.all script.root.program_orderly.all
  obtain ⟨⟨r, t, ran⟩ | ⟨t, ran⟩, -⟩ := Environment.run_raised (s := s) usual raised
  · rw [← reached.run_eq] at ran
    have root : script.evaluateRoot env (script.initial env w) w = _ := congrArg script.conclude ran
    obtain ⟨finish, run, w', ended, -⟩ := run_of_evaluated concludes root
    have accounts := run_accounts ended
    rw [history, reached.history_eq] at accounts
    exact ⟨run, accounts⟩
  · rw [← reached.run_eq] at ran
    exact absurd (crashes_iff.mpr ⟨t, v, ran⟩) intact

end Script

/-- A run whose signal is raised before it starts enters no block and leaves the presets as they
are. From any moment on at which the signal is raised, nobody is told or asked anything, no block is
entered, and the run ends unless it crashes. A stop, a call or the start of a child that is pending
when the signal is raised is the last thing that happens; the run is then aborted, unless its time
had run out before. Either way the last interception and the end of the run are told of once. -/
theorem abort_stops_the_run {ε : Type} (script : Script Stock) {env : Environment Stock ε}
    (lasting : env.Lasting) (concludes : env.Concludes) (w : World ε) :
    let start := script.initial env w
    let limited := script.limited w
    (env.aborted w.peers = true →
      (∀ past b s v, ¬ env.Meets script.root.program start limited past (.stop .enter b) s v) ∧
      ∃ run, run.Aborted ∧ run.globals = env.site.presets ∧ script.Accounts env w [] run) ∧
    (∀ past q s v, env.Reaches script.root.program start limited past q s v →
      env.aborted v.peers = true →
      (∀ n, .told n ∉ env.history q s v) ∧
      (∀ more b t u, ¬ env.Meets q s v more (.stop .enter b) t u) ∧
      (¬script.crashes env w → ∃ run, script.Accounts env w (past ++ env.history q s v) run)) ∧
    ∀ past a s v, env.Meets script.root.program start limited past a s v →
      env.aborted v.peers = false → env.RaisedDuring a s v →
      (∀ before b t u, env.Meets script.root.program start limited before (.stop .enter b) t u →
        before <+: past) ∧
      ∃ run, script.Accounts env w (past ++ (env.notices a s v.peers).map .told) run ∧
        if v.overdue then
          ∃ limit, script.settings.timeout = some limit ∧ run.error = some (.timeout limit)
        else run.Aborted := by
  intro start limited
  have usual := script.root.program_orderly.all
  have guarded := script.root.program_guarded
  have relays := script.root.program_relays
  -- No block is entered after a moment at which the signal is raised: it would still be raised.
  have unentered {past : List (Event Stock)} {q : Program Stock Value} {s : RunState} {v : World ε}
      (reached : env.Reaches script.root.program start limited past q s v)
      (raised : env.aborted v.peers = true) (more : List (Event Stock)) (b : Block Stock)
      (t : RunState) (u : World ε) : ¬ env.Meets q s v more (.stop .enter b) t u := by
    rintro ⟨resume, after⟩
    have still : u = v := after.world_of_raised (reached.all usual) raised
    have down : env.aborted u.peers = false :=
      Environment.Meets.entered guarded nofun ⟨resume, reached.trans after⟩
    rw [still, raised] at down
    cases down
  refine ⟨?_, ?_, ?_⟩
  · intro raised
    have here :
        env.Reaches script.root.program start limited [] script.root.program start limited :=
      .here _ _ _
    refine ⟨unentered here raised, ?_⟩
    -- The first thing a chain does is to look at the signal.
    have looks : env.perform .checkAbort start limited =
        (.result (.error .aborted), start, limited) := by
      have seen : env.aborted limited.peers = true := raised
      simp only [Environment.perform, seen, ↓reduceIte]
    have meets : env.Meets script.root.program start limited [] .checkAbort start limited := by
      rw [script.root.program_eq]
      exact ⟨_, .here _ _ _⟩
    obtain ⟨⟨s, ran⟩, happened⟩ := meets.fails relays looks
    have nothing : script.history env w = [] := by
      refine happened.trans ?_
      simp [Environment.events, Environment.notices, Environment.effects]
    obtain ⟨run, error, accounts⟩ :=
      Script.accounts_of_failed concludes nothing (congrArg script.conclude ran)
    exact ⟨run, accounts.aborted error, accounts.leaves.globals, accounts⟩
  · intro past q s v reached raised
    exact ⟨(Environment.run_raised (reached.all usual) raised).2, unentered reached raised,
      Script.accounts_of_raised concludes reached raised⟩
  · intro past a s v meets down raised
    refine ⟨fun before b t u entered => meets.entered_before lasting relays down raised entered, ?_⟩
    obtain ⟨⟨u, performed⟩, nothing⟩ := Environment.perform_interrupted lasting down raised
    have told : env.events a s v = (env.notices a s v.peers).map .told := by
      rw [Environment.events, nothing, List.append_nil]
    rw [← told]
    by_cases late : v.overdue = true
    · simp only [late, ↓reduceIte] at performed ⊢
      obtain ⟨ran, happened⟩ := meets.cut performed
      obtain ⟨limit, timed⟩ := Script.timed_of_cut ran
      obtain ⟨run, error, accounts⟩ :=
        Script.accounts_of_failed concludes happened (congrArg script.conclude ran)
      rw [timed, Option.getD_some] at error
      exact ⟨run, accounts, limit, timed, error⟩
    · simp only [late, Bool.false_eq_true, ↓reduceIte] at performed ⊢
      obtain ⟨⟨t, ran⟩, happened⟩ := meets.fails relays performed
      obtain ⟨run, error, accounts⟩ :=
        Script.accounts_of_failed concludes happened (congrArg script.conclude ran)
      exact ⟨run, accounts, accounts.aborted error⟩

/-- A site whose services raise the signal and never answer, watched by a debugger that lets
everything pass. -/
def selfAborting : Environment Stock Bool where
  site := { Site.bare [("x", .string "a")] with call := fun _ _ _ => (.never, true) }
  debugger := some { intercept := fun _ _ _ e => (.now (.ok ()), e), finished := fun _ e => e }
  aborted := id
  abort _ := true
  react := id

/-- A call inside a scope. -/
def scopedCall : Block Stock :=
  .mk ⟨"controls_scope", none, .scope, [], []⟩
    [("DO", .mk ⟨"site_call", none, .siteCall, [("SERVICE", .string "abort_hang")], []⟩ [] none)]
    none

/-- Whatever its time limit, the script comes to the call with the signal down, and the signal is
raised while the call is pending. -/
theorem meets_scopedCall (settings : Settings) :
    let script : Script Stock := ⟨scopedCall, settings⟩
    let w : World Bool := { peers := false, origin := ⟨0, 0⟩ }
    ∃ past s, selfAborting.Meets script.root.program (script.initial selfAborting w)
        (script.limited w) past (.call "abort_hang" []) s (script.limited w) ∧
      selfAborting.RaisedDuring (.call "abort_hang" []) s (script.limited w) := by
  intro script w
  -- A look and a stop for each of the two blocks, the scope between them, the room for the
  -- arguments and the look of the call.
  exact ⟨_, _, ⟨_, .later rfl (.later rfl (.later rfl (.later rfl (.later rfl
    (.later rfl (.later rfl (.here _ _ _)))))))⟩, .inl rfl⟩

/-- A run that is aborted during its call, with time left, and one that is aborted before it
starts. -/
theorem aborted_in_its_call_or_before :
    let script : Script Stock := ⟨scopedCall, { timeout := some 5 }⟩
    let w : World Bool := { peers := false, origin := ⟨0, 0⟩ }
    let raised : World Bool := { peers := true, origin := ⟨0, 0⟩ }
    (∃ past run, run.Aborted ∧
      script.Accounts selfAborting w (past ++ [.told (.called "abort_hang" [])]) run) ∧
    ∃ run, run.Aborted ∧ run.globals = [("x", .string "a")] ∧
      script.Accounts selfAborting raised [] run := by
  intro script w raised
  have lasting : selfAborting.Lasting := fun _ h => h
  have concludes : selfAborting.Concludes := by
    rintro _ ⟨⟩ block scopes v -
    exact ⟨.ok (), _, rfl⟩
  obtain ⟨past, s, meets, signal⟩ := meets_scopedCall { timeout := some 5 }
  obtain ⟨-, -, pending⟩ := abort_stops_the_run script lasting concludes w
  obtain ⟨-, run, accounts, ends⟩ := pending past _ s _ meets rfl signal
  obtain ⟨early, -, -⟩ := abort_stops_the_run script lasting concludes raised
  exact ⟨⟨past, run, ends, accounts⟩, (early rfl).2⟩

/-- A pending call does not always end the run with the abort: where the time of the run had run out
before the call, the run ends with that, though the signal was raised while the call was pending. -/
theorem abort_too_late :
    let script : Script Stock := ⟨scopedCall, { timeout := some 0 }⟩
    let w : World Bool := { peers := false, origin := ⟨0, 0⟩ }
    (∃ past s v, selfAborting.Meets script.root.program (script.initial selfAborting w)
        (script.limited w) past (.call "abort_hang" []) s v ∧
      selfAborting.aborted v.peers = false ∧
      selfAborting.RaisedDuring (.call "abort_hang" []) s v) ∧
    ∃ run w', script.run selfAborting w = some (run, w') ∧ run.error = some (.timeout 0) ∧
      ¬ run.Aborted := by
  intro script w
  obtain ⟨past, s, meets, raised⟩ := meets_scopedCall { timeout := some 0 }
  have timedOut : (script.run selfAborting w).map (fun x => x.1.error) =
      some (some (.timeout 0)) := by
    decide +kernel
  obtain ⟨⟨run, w'⟩, ended, error⟩ := Option.map_eq_some_iff.mp timedOut
  have error : run.error = some (.timeout 0) := error
  refine ⟨⟨past, s, script.limited w, meets, rfl, raised⟩, run, w', ended, error, ?_⟩
  intro aborted
  have otherwise := aborted.error
  rw [error] at otherwise
  cases otherwise

end BlockScript
