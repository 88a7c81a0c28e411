import BlockScript.Proofs.Deadlines
import BlockScript.Proofs.Transparency
/-!
A run that is cut short is the beginning of the undisturbed run.

Two watchers of one site see the same as long as they grant the same stops. So a watcher that grants
some stops and fails the next leaves of the undisturbed run what happened up to that stop, and a
deadline leaves what happened up to the question that was open then. What the run leaves behind are
the marks of that beginning, and nobody hears more of it than that it is over.
-/

namespace BlockScript

variable {β σ δ δ' ε α : Type}

namespace Answer

/-- The waiting for an answer ends with an error. -/
def Refuses (moves : δ → δ) (y : δ) (e : ScriptError) : Answer δ Unit → Prop
  | .now r => r = .error e
  | .later _ r => r = .error e
  | .once ready => ∃ z, ready (moves y) = some (.error e, z)

end Answer

/-- A debugger that, when it is ready for a number of stops, grants that many and fails the next. -/
structure Debugger.Falters (d : Debugger β δ) (moves : δ → δ) (e : ScriptError)
    (ready : Nat → δ → Prop) : Prop where
  passes : ∀ reason block scopes n y, reason ≠ .finish → ready (n + 1) y →
    ∃ z, (d.intercept reason block scopes y).1.Grants moves
      (d.intercept reason block scopes y).2 z ∧ ready n z
  fails : ∀ reason block scopes y, reason ≠ .finish → ready 0 y →
    (d.intercept reason block scopes y).1.Refuses moves (d.intercept reason block scopes y).2 e
  moves : ∀ n y, ready n y → ready n (moves y)

def Event.isStop : Event β → Bool
  | .told (.stopped _ _ _) => true
  | _ => false

namespace Environment

variable {site : Site σ} {watcher : Option (Debugger β δ)} {moves : δ → δ}

theorem reply_refused {answer : Answer δ Unit} (x : σ) {y : δ} {e : ScriptError}
    (refuses : answer.Refuses moves y e) :
    ((beside site watcher moves).reply answer.right (x, y)).1 = .result (.error e) := by
  cases answer with
  | now r =>
    obtain rfl := refuses
    rfl
  | later ms r =>
    obtain rfl := refuses
    rfl
  | once ready =>
    obtain ⟨z, refused⟩ := refuses
    simp [reply, Answer.right, beside, refused]

theorem perform_refused (site : Site σ) {d : Debugger β δ} {reason : StopReason} {block : Block β}
    {s : RunState} {v : World (σ × δ)} (unlimited : v.deadline = none) {e : ScriptError}
    (refuses : (d.intercept reason block s.scopes v.peers.2).1.Refuses moves
      (d.intercept reason block s.scopes v.peers.2).2 e) :
    ∃ u, (beside site (some d) moves).perform (.stop reason block) s v =
      (.result (.error e), s, u) := by
  obtain ⟨u, raced, -⟩ := (calm_beside site (some d) moves).race unlimited
    (d.right.intercept reason block s.scopes)
  have refused : ((beside site (some d) moves).reply
      (d.right.intercept reason block s.scopes v.peers).1
      (d.right.intercept reason block s.scopes v.peers).2).1 = .result (.error e) :=
    reply_refused v.peers.1 refuses
  rw [refused] at raced
  exact ⟨u, congrArg (fun x => (x.1, s, x.2)) raced⟩

/-- What happens in an action that is no stop does not depend on who is beside the site. -/
theorem events_silent {a : Action β} (silent : a.stopCount = 0) {s t : RunState}
    (scopes : t.scopes = s.scopes) {w : World σ} {v : World (σ × δ)} (world : w.Twin v) :
    (beside site watcher moves).events a t v = (alone site : Environment β σ).events a s w := by
  cases a with
  | stop => cases silent
  | assign name value => simp only [events, effects, notices, scopes]; rfl
  | spawn name presets =>
    have still (y : δ) : (fun _ : δ => True) y → (fun _ : δ => True) (moves y) := id
    obtain ⟨ending, u, u', one, two, -⟩ := race_left still world trivial (site.spawn name presets)
    have raced : (alone site : Environment β σ).race
        ((alone site : Environment β σ).site.spawn name presets) w = (ending, u) := one
    have raced' : (beside site watcher moves).race
        ((beside site watcher moves).site.spawn name presets) v = (ending, u') := two
    simp only [events, effects, raced, raced']
    rfl
  | _ => rfl

theorem events_stopless (env : Environment β ε) {a : Action β} (silent : a.stopCount = 0)
    (s : RunState) (w : World ε) : ∀ x ∈ env.events a s w, x.isStop = false := by
  intro x happened
  obtain told | changed := List.mem_append.mp happened
  · obtain ⟨n, noticed, rfl⟩ := List.mem_map.mp told
    unfold notices at noticed
    split at noticed
    · cases noticed
    · cases a with
      | stop => cases silent
      | call | spawn =>
        rw [List.mem_singleton.mp noticed]
        rfl
      | _ => cases noticed
  · cases a with
    | assign | assignGlobal | attach =>
      rw [List.mem_singleton.mp changed]
      rfl
    | spawn name presets =>
      simp only [effects] at changed
      split at changed
      · rw [List.mem_singleton.mp changed]
        rfl
      · cases changed
    | _ => cases changed

end Environment

/-- Where a list is split at something that is not in its first part, that part stands before. -/
theorem split_after {γ : Type} {first rest before after : List γ} {x : γ} (apart : x ∉ first)
    (split : first ++ rest = before ++ x :: after) :
    ∃ between, before = first ++ between ∧ rest = between ++ x :: after := by
  obtain found | ⟨tail, rfl, joined⟩ := List.append_eq_append_iff.mp split
  · exact found
  · cases tail with
    | nil => exact ⟨[], by simp, by simpa using joined.symm⟩
    | cons y tail =>
      cases joined
      simp at apart

namespace Environment

variable {site : Site σ} {d : Debugger Stock δ} {moves : δ → δ} {d' : Debugger Stock δ'}
  {moves' : δ' → δ'} {logs : LogRecord → LogRecord → Prop} {e : ScriptError}
  {ready : Nat → δ' → Prop}

/-- An action without a stop does the same under a watcher that lets everything pass and under one
that falters, and the latter is as patient after it as before. -/
theorem perform_silent_twice (site : Site σ) (obliges : d.Obliges moves)
    (falters : d'.Falters moves' e ready) (steady : Log.Steady logs) {a : Action Stock}
    (usual : a.Plain ∨ a = .openScope ∨ ∃ previous, a = .closeScope previous)
    (silent : a.stopCount = 0) {s t t' : RunState} {w : World σ} {v : World (σ × δ)}
    {v' : World (σ × δ')} (state : s.Twin logs t) (state' : s.Twin logs t') (world : w.Twin v)
    (world' : w.Twin v') {n : Nat} (patient : ready n v'.peers.2) :
    ∃ (ending : Ending a.Reply) (s₁ t₁ t₂ : RunState) (w₁ : World σ) (v₁ : World (σ × δ))
        (v₂ : World (σ × δ')),
      (beside site (some d) moves).perform a t v = (ending, t₁, v₁) ∧
      (beside site (some d') moves').perform a t' v' = (ending, t₂, v₂) ∧
      s₁.Twin logs t₁ ∧ s₁.Twin logs t₂ ∧ w₁.Twin v₁ ∧ w₁.Twin v₂ ∧ ready n v₂.peers.2 := by
  have step : InStep logs (fun _ => True) ((alone site : Environment Stock σ).perform a s w)
      ((beside site (some d) moves).perform a t v) :=
    perform_silent_inStep (obliges.patience.moves 0) steady usual silent state world trivial
  have step' : InStep logs (ready n) ((alone site : Environment Stock σ).perform a s w)
      ((beside site (some d') moves').perform a t' v') :=
    perform_silent_inStep (falters.moves n) steady usual silent state' world' patient
  rcases lone : (alone site : Environment Stock σ).perform a s w with ⟨ending, s₁, w₁⟩
  rcases one : (beside site (some d) moves).perform a t v with ⟨ending₁, t₁, v₁⟩
  rcases two : (beside site (some d') moves').perform a t' v' with ⟨ending₂, t₂, v₂⟩
  rw [lone, one] at step
  rw [lone, two] at step'
  obtain ⟨eq, state, world, -⟩ := step
  obtain ⟨eq', state', world', patient⟩ := step'
  cases eq
  cases eq'
  exact ⟨ending, s₁, t₁, t₂, w₁, v₁, v₂, rfl, rfl, state, state', world, world', patient⟩

/-- A watcher that falters comes to the stop it fails after what happens before that stop anyway. -/
theorem meets_faltering (obliges : d.Obliges moves) (falters : d'.Falters moves' e ready)
    (steady : Log.Steady logs) {p : Program Stock α}
    (usual : p.All fun a => a.Plain ∨ a = .openScope ∨ ∃ previous, a = .closeScope previous)
    {s t t' : RunState} {w : World σ} {v : World (σ × δ)} {v' : World (σ × δ')}
    (state : s.Twin logs t) (state' : s.Twin logs t') (world : w.Twin v) (world' : w.Twin v')
    {before after : List (Event Stock)} {reason : StopReason} {block : Block Stock}
    {scopes : Scopes}
    (happens : (beside site (some d) moves).history p t v =
      before ++ .told (.stopped reason block scopes) :: after)
    (patient : ready (before.countP Event.isStop) v'.peers.2) :
    ∃ u x, (beside site (some d') moves').Meets p t' v' before (.stop reason block) u x ∧
      u.scopes = scopes ∧ reason ≠ .finish ∧ x.deadline = none ∧ ready 0 x.peers.2 := by
  induction p generalizing s t t' w v v' before with
  | done r => simp [history] at happens
  | act a resume ih =>
    obtain ⟨now, later⟩ := usual
    by_cases silent : a.stopCount = 0
    · -- The runs stay in step, and the same happens in both.
      obtain ⟨ending, s₁, t₁, t₂, w₁, v₁, v₂, one, two, state₁, state₂, world₁, world₂, patient⟩ :=
        perform_silent_twice site obliges falters steady now silent state state' world world'
          patient
      have same : (beside site (some d') moves').events a t' v' =
          (beside site (some d) moves).events a t v :=
        (events_silent silent state'.scopes world').trans
          (events_silent silent state.scopes world).symm
      have stopless := (beside site (some d) moves).events_stopless silent t v
      have apart : Event.told (.stopped reason block scopes) ∉
          (beside site (some d) moves).events a t v :=
        fun mem => absurd (stopless _ mem) (by simp [Event.isStop])
      rw [history, one] at happens
      obtain ⟨between, rfl, rest⟩ := split_after apart happens
      cases ending with
      | result reply =>
        have uncounted : ((beside site (some d) moves).events a t v).countP Event.isStop = 0 :=
          List.countP_eq_zero.mpr fun x mem => by simp [stopless x mem]
        rw [List.countP_append, uncounted, Nat.zero_add] at patient
        obtain ⟨u, x, ⟨left, reached⟩, facts⟩ :=
          ih reply (later reply) state₁ state₂ world₁ world₂ rest patient
        rw [← same]
        exact ⟨u, x, ⟨left, .later two reached⟩, facts⟩
      | cut | stuck | crash => simp at rest
    · cases a with
      | stop r b =>
        have going : r ≠ .finish := by simpa [Action.Plain] using now
        obtain ⟨z, grants⟩ := obliges r b t.scopes v.peers.2
        obtain ⟨v₁, one, world₁, -⟩ := perform_granted site world grants
        rw [history, one] at happens
        replace happens : .told (.stopped r b t.scopes) ::
            (beside site (some d) moves).history (resume (.ok ())) t v₁ = _ := happens
        cases before with
        | nil =>
          obtain ⟨told, -⟩ := List.cons.inj happens
          cases told
          exact ⟨t', v', ⟨resume, .here _ _ _⟩, state'.scopes.trans state.scopes.symm, going,
            world'.unlimited_beside, patient⟩
        | cons x before =>
          obtain ⟨rfl, rest⟩ := List.cons.inj happens
          rw [List.countP_cons_of_pos rfl] at patient
          obtain ⟨z, grants, patient⟩ := falters.passes r b t'.scopes _ _ going patient
          obtain ⟨v₂, two, world₂, rfl⟩ := perform_granted site world' grants
          obtain ⟨u, x, ⟨left, reached⟩, facts⟩ :=
            ih (.ok ()) (later _) state state' world₁ world₂ rest patient
          have told : (beside site (some d') moves').events (.stop r b) t' v' =
              [.told (.stopped r b t.scopes)] := by
            rw [state.scopes, ← state'.scopes]
            rfl
          have went := Reaches.later two reached
          rw [told] at went
          exact ⟨u, x, ⟨left, went⟩, facts⟩
      | _ => exact absurd rfl silent

end Environment

theorem Debugger.Obliges.concludes {d : Debugger Stock δ} {moves : δ → δ} (h : d.Obliges moves)
    (site : Site σ) : (Environment.beside site (some d) moves).Concludes := by
  rintro _ ⟨⟩ block scopes w unlimited
  obtain ⟨z, grants⟩ := h .finish block scopes w.peers.2
  obtain ⟨v, awaited, -⟩ := Environment.await_granted site unlimited grants
  exact ⟨.ok (), v, awaited⟩

namespace Script

/-- The script with a limit on its time. -/
def within (script : Script β) (limit : Nat) : Script β :=
  { script with settings := { script.settings with timeout := some limit } }

variable {script : Script Stock} {env : Environment Stock ε} {w : World ε}

/-- A run that its time limit cuts off ends with a question that is open, in the middle of the run
without the limit. -/
theorem accounts_of_cut (untimed : script.settings.timeout = none) (concludes : env.Concludes)
    {limit : Nat}
    (cut : (env.run script.root.program (script.initial env w)
      ((script.within limit).limited w)).1 = .cut) :
    ∃ before pending after run, script.history env w = before ++ .told pending :: after ∧
      run.error = some (.timeout limit) ∧
      (script.within limit).Accounts env w (before ++ [.told pending]) run := by
  rcases ran : env.run script.root.program (script.initial env w)
    ((script.within limit).limited w) with ⟨ending, s, v⟩
  rw [ran] at cut
  subst cut
  obtain ⟨before, pending, after, short, long⟩ :=
    Environment.history_of_cut script.root.program_orderly.all ran
  have lifted : ((script.within limit).limited w).lifted = script.limited w := by
    simp [World.lifted, limited, untimed]
  rw [lifted] at long
  have root : (script.within limit).evaluateRoot env ((script.within limit).initial env w) w = _ :=
    congrArg (script.within limit).conclude ran
  have short : (script.within limit).history env w = before ++ [.told pending] := short
  obtain ⟨run, error, accounts⟩ := accounts_of_failed concludes short root
  exact ⟨before, pending, after, run, long, error, accounts⟩

end Script

/-- Beside a run under a debugger that grants every stop. A debugger that grants as many stops as
come before one of its stops and fails that one ends the run there, with its error. A time limit
that cuts the run off ends it with a question that is open. Either way what happened is what happens
in the undisturbed run up to there, the last interception follows it, and the run leaves the marks
of that and nothing else. -/
theorem cut_short_is_a_beginning {σ δ : Type} {script : Script Stock}
    (untimed : script.settings.timeout = none) (site : Site σ) {d : Debugger Stock δ}
    {moves : δ → δ} (obliges : d.Obliges moves) (v : World (σ × δ)) :
    (∀ (δ' : Type) (d' : Debugger Stock δ') (moves' : δ' → δ') (e : ScriptError)
        (ready : Nat → δ' → Prop), d'.Falters moves' e ready →
      (Environment.beside site (some d') moves').Concludes →
      ∀ (v' : World (σ × δ')) before reason block scopes after, v'.peers.1 = v.peers.1 →
      script.history (.beside site (some d) moves) v =
        before ++ .told (.stopped reason block scopes) :: after →
      ready (before.countP Event.isStop) v'.peers.2 →
      ∃ run, run.error = some e ∧
        script.Accounts (.beside site (some d') moves') v'
          (before ++ [.told (.stopped reason block scopes)]) run) ∧
    ∀ limit,
      ((Environment.beside site (some d) moves).run script.root.program
        (script.initial (.beside site (some d) moves) v) ((script.within limit).limited v)).1 =
          .cut →
      ∃ before pending after run,
        script.history (.beside site (some d) moves) v = before ++ .told pending :: after ∧
        run.error = some (.timeout limit) ∧
        (script.within limit).Accounts (.beside site (some d) moves) v
          (before ++ [.told pending]) run := by
  refine ⟨?_, fun limit => Script.accounts_of_cut untimed (obliges.concludes site)⟩
  intro δ' d' moves' e ready falters concludes v' before reason block scopes after same happens
    patient
  -- Both runs are in step with the one that nobody watches.
  have state : (script.initial (.alone site) (v.map Prod.fst)).Twin LogRecord.SameButTimes
      (script.initial (.beside site (some d) moves) v) := by
    unfold Script.initial
    exact ⟨rfl, rfl, LogRecord.sameButTimes_start _ _ _ _ _⟩
  have state' : (script.initial (.alone site) (v.map Prod.fst)).Twin LogRecord.SameButTimes
      (script.initial (.beside site (some d') moves') v') := by
    unfold Script.initial
    exact ⟨rfl, rfl, LogRecord.sameButTimes_start _ _ _ _ _⟩
  have world : (script.limited (v.map Prod.fst)).Twin (script.limited v) :=
    ⟨rfl, by simp [Script.limited, untimed], by simp [Script.limited, untimed]⟩
  have world' : (script.limited (v.map Prod.fst)).Twin (script.limited v') :=
    ⟨same, by simp [Script.limited, untimed], by simp [Script.limited, untimed]⟩
  obtain ⟨t, u, meets, rfl, going, unlimited, exhausted⟩ := Environment.meets_faltering obliges
    falters LogRecord.steady_sameButTimes script.root.program_orderly.all state state' world world'
    happens patient
  obtain ⟨x, refused⟩ := Environment.perform_refused site unlimited
    (falters.fails reason block t.scopes u.peers.2 going exhausted)
  obtain ⟨⟨s, ran⟩, history⟩ := meets.fails script.root.program_relays refused
  exact Script.accounts_of_failed concludes history (congrArg script.conclude ran)

/-- Grants as many stops as it has left, and fails all others. -/
def allowance : Debugger Stock Nat where
  intercept _ _ _ n :=
    match n with
    | 0 => (.now (.error (.debugger "enough")), 0)
    | n + 1 => (.now (.ok ()), n)
  finished _ n := n

theorem allowance_falters : allowance.Falters id (.debugger "enough") fun n y => y = n where
  passes := by
    rintro reason block scopes n y - rfl
    exact ⟨n, ⟨rfl, rfl⟩, rfl⟩
  fails := by
    rintro reason block scopes y - rfl
    rfl
  moves _ _ h := h

theorem allowance_concludes (site : Site σ) :
    (Environment.beside site (some allowance) id).Concludes := by
  rintro _ ⟨⟩ block scopes w -
  obtain ⟨⟨x, n⟩, origin, now, abortAt, deadline⟩ := w
  cases n <;> exact ⟨_, _, rfl⟩

/-- A script that assigns a variable and calls a service that never answers. Failed when its first
block is left, it has assigned the variable all the same and calls nobody; cut off, it has asked and
is still without an answer. -/
theorem failed_once_assigned_and_cut_once_asked :
    let literal : Block Stock := .mk ⟨"text", none, .text, [("TEXT", .string "b")], []⟩ [] none
    let asks : Block Stock :=
      .mk ⟨"site_call", none, .siteCall, [("SERVICE", .string "s")], []⟩ [] none
    let assigns : Block Stock :=
      .mk ⟨"variables_set", none, .setVariable, [("VAR", .string "x")], []⟩ [("VALUE", literal)]
        asks
    let script : Script Stock := ⟨assigns, {}⟩
    let site : Site Unit := { Site.bare [] with call := fun _ _ e => (.never, e) }
    let granting : Debugger Stock Unit :=
      { intercept := fun _ _ _ e => (.now (.ok ()), e), finished := fun _ e => e }
    let v : World (Unit × Unit) := { peers := ((), ()), origin := ⟨0, 0⟩ }
    let v' : World (Unit × Nat) := { peers := ((), 3), origin := ⟨1, 0⟩ }
    let bound : Scopes := .ofBindings [("x", .string "b")]
    let before : List (Event Stock) :=
      [.told (.stopped .enter assigns .empty), .told (.stopped .enter literal .empty),
        .told (.stopped .leave literal .empty), .assigned 0 "x" (.string "b")]
    script.history (.beside site (some granting) id) v =
      before ++ [.told (.stopped .leave assigns bound), .told (.stopped .enter asks bound),
        .told (.called "s" [])] ∧
    (∃ run, run.error = some (.debugger "enough") ∧ run.globals = [("x", .string "b")] ∧
      script.Accounts (.beside site (some allowance) id) v'
        (before ++ [.told (.stopped .leave assigns bound)]) run) ∧
    ∃ before pending after run,
      script.history (.beside site (some granting) id) v = before ++ .told pending :: after ∧
      run.error = some (.timeout 5) ∧
      (script.within 5).Accounts (.beside site (some granting) id) v (before ++ [.told pending])
        run := by
  intro literal asks assigns script site granting v v' bound before
  have untimed : script.settings.timeout = none := rfl
  have obliges : granting.Obliges id := fun _ _ _ y => ⟨y, rfl, rfl⟩
  have happens : script.history (.beside site (some granting) id) v =
      before ++ .told (.stopped .leave assigns bound) ::
        [.told (.stopped .enter asks bound), .told (.called "s" [])] := rfl
  obtain ⟨failing, cutting⟩ := cut_short_is_a_beginning untimed site obliges v
  obtain ⟨run, error, accounts⟩ := failing Nat allowance id (.debugger "enough") (fun n y => y = n)
    allowance_falters (allowance_concludes site) v' before .leave assigns bound _ rfl happens rfl
  exact ⟨happens, ⟨run, error, accounts.leaves.globals, accounts⟩, cutting 5 rfl⟩

end BlockScript
