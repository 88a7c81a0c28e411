import BlockScript.Proofs.Crashes
import BlockScript.Proofs.Sessions
/-!
A run under a stepper, beside the same run under a debugger that grants every stop.

As long as its commands let the stops pass, the stepped run is the other one, and a command that
fails a stop ends it there. At every moment, a crash included, the session stands where the stops so
far have brought it: each has taken one command and was published, until a release.
-/

namespace BlockScript

variable {β σ δ δ' ε α : Type}

/-- The stop that an event is, as a stepper describes it. -/
def Event.stop? : Event β → Option StopEvent
  | .told (.stopped reason block scopes) => some (.of reason block scopes)
  | _ => none

/-- The stops in a history. -/
def stopEvents (happened : List (Event β)) : List StopEvent :=
  happened.filterMap Event.stop?

theorem stopEvents_append (one two : List (Event β)) :
    stopEvents (one ++ two) = stopEvents one ++ stopEvents two :=
  List.filterMap_append

theorem length_stopEvents (happened : List (Event β)) :
    (stopEvents happened).length = happened.countP Event.isStop := by
  have isSome (x : Event β) : x.stop?.isSome = x.isStop := by
    cases x with
    | told notice => cases notice <;> rfl
    | _ => rfl
  rw [stopEvents, List.length_filterMap_eq_countP]
  exact List.countP_congr fun x _ => by rw [isSome]

theorem stopEvents_stopless {happened : List (Event β)}
    (stopless : ∀ x ∈ happened, x.isStop = false) : stopEvents happened = [] := by
  have none_left : (stopEvents happened).length = 0 := by
    rw [length_stopEvents]
    exact List.countP_eq_zero.mpr fun x mem => by simp [stopless x mem]
  exact List.eq_nil_of_length_eq_zero none_left

/-- A history with more stops than a number goes on after that number of stops with another. -/
theorem exists_stop_after {happened : List (Event β)} {n : Nat}
    (more : n < (stopEvents happened).length) :
    ∃ before reason block scopes after,
      happened = before ++ .told (.stopped reason block scopes) :: after ∧
      before.countP Event.isStop = n := by
  induction happened generalizing n with
  | nil => simp [stopEvents] at more
  | cons x rest ih =>
    rw [length_stopEvents, List.countP_cons] at more
    cases stop : x.isStop with
    | false =>
      have more' : n < (stopEvents rest).length := by
        rw [length_stopEvents]
        simpa [stop] using more
      obtain ⟨before, reason, block, scopes, after, rfl, count⟩ := ih more'
      exact ⟨x :: before, reason, block, scopes, after, rfl, by simp [stop, count]⟩
    | true =>
      cases n with
      | zero =>
        unfold Event.isStop at stop
        split at stop
        · exact ⟨[], _, _, _, rest, rfl, rfl⟩
        · cases stop
      | succ n =>
        have more' : n < (stopEvents rest).length := by
          rw [length_stopEvents]
          simpa [stop] using more
        obtain ⟨before, reason, block, scopes, after, rfl, count⟩ := ih more'
        exact ⟨x :: before, reason, block, scopes, after, rfl, by simp [stop, count]⟩

namespace Environment

section
variable {site : Site σ} {d : Debugger Stock δ} {moves : δ → δ} {ready : Nat → δ → Prop}
  {d' : Debugger Stock δ'} {moves' : δ' → δ'} {ready' : Nat → δ' → Prop}
  {logs : LogRecord → LogRecord → Prop}

theorem countP_events (a : Action Stock) (s : RunState) (v : World (σ × δ)) :
    ((beside site (some d) moves).events a s v).countP Event.isStop = a.stopCount := by
  by_cases silent : a.stopCount = 0
  · rw [silent]
    exact List.countP_eq_zero.mpr fun x mem => by
      simp [(beside site (some d) moves).events_stopless silent s v x mem]
  · cases a with
    | stop reason block => rfl
    | _ => exact absurd rfl silent

/-- Two watchers are told the same of an action, from the same scopes and the same site. -/
theorem events_agree (a : Action Stock) {s t t' : RunState} (scopes : t.scopes = s.scopes)
    (scopes' : t'.scopes = s.scopes) {w : World σ} {v : World (σ × δ)} {v' : World (σ × δ')}
    (world : w.Twin v) (world' : w.Twin v') :
    (beside site (some d') moves').events a t' v' = (beside site (some d) moves).events a t v := by
  by_cases silent : a.stopCount = 0
  · exact (events_silent silent scopes' world').trans (events_silent silent scopes world).symm
  · cases a with
    | stop reason block =>
      change [Event.told (.stopped reason block t'.scopes)] =
        [.told (.stopped reason block t.scopes)]
      rw [scopes, scopes']
    | _ => exact absurd rfl silent

section
variable (patience : Patience (some d) moves ready) (steady : Log.Steady logs)
  {p : Program Stock α}
  (usual : p.All fun a => a.Plain ∨ a = .openScope ∨ ∃ previous, a = .closeScope previous)
  {s t : RunState} (state : s.Twin logs t) {w : World σ} {v : World (σ × δ)} (world : w.Twin v)
  (patient : ready ((alone site : Environment Stock σ).stopCount p s w) v.peers.2)
include patience steady usual state world patient

/-- A patient watcher is told of all stops of a program. -/
theorem countP_history :
    ((beside site (some d) moves).history p t v).countP Event.isStop =
      (alone site : Environment Stock σ).stopCount p s w := by
  induction p generalizing s t w v with
  | done r => rfl
  | act a resume ih =>
    obtain ⟨now, later⟩ := usual
    rw [stopCount] at patient
    have step : InStep logs _ ((alone site : Environment Stock σ).perform a s w)
        ((beside site (some d) moves).perform a t v) :=
      perform_inStep patience steady now state world patient
    rcases one : (alone site : Environment Stock σ).perform a s w with ⟨ending, s₁, w₁⟩
    rcases two : (beside site (some d) moves).perform a t v with ⟨ending', t₁, v₁⟩
    rw [one, two] at step
    obtain ⟨ending_eq, state, world, patient⟩ := step
    cases ending_eq
    rw [history, stopCount, List.countP_append, countP_events, one, two, Nat.add_comm]
    cases ending with
    | result reply => exact congrArg (· + a.stopCount) (ih reply (later reply) state world patient)
    | cut | stuck | crash => rfl

/-- The same happens under two patient watchers. -/
theorem history_agrees (patience' : Patience (some d') moves' ready') {t' : RunState}
    (state' : s.Twin logs t') {v' : World (σ × δ')} (world' : w.Twin v')
    (patient' : ready' ((alone site : Environment Stock σ).stopCount p s w) v'.peers.2) :
    (beside site (some d') moves').history p t' v' =
      (beside site (some d) moves).history p t v := by
  induction p generalizing s t t' w v v' with
  | done r => rfl
  | act a resume ih =>
    obtain ⟨now, later⟩ := usual
    rw [stopCount] at patient patient'
    have events : (beside site (some d') moves').events a t' v' =
        (beside site (some d) moves).events a t v :=
      events_agree a state.scopes state'.scopes world world'
    have step : InStep logs _ ((alone site : Environment Stock σ).perform a s w)
        ((beside site (some d) moves).perform a t v) :=
      perform_inStep patience steady now state world patient
    have step' : InStep logs _ ((alone site : Environment Stock σ).perform a s w)
        ((beside site (some d') moves').perform a t' v') :=
      perform_inStep patience' steady now state' world' patient'
    rcases lone : (alone site : Environment Stock σ).perform a s w with ⟨ending, s₁, w₁⟩
    rcases one : (beside site (some d) moves).perform a t v with ⟨ending₁, t₁, v₁⟩
    rcases two : (beside site (some d') moves').perform a t' v' with ⟨ending₂, t₂, v₂⟩
    rw [lone, one] at step
    rw [lone, two] at step'
    obtain ⟨eq, state, world, patient⟩ := step
    obtain ⟨eq', state', world', patient'⟩ := step'
    cases eq
    cases eq'
    rw [history, history, events, one, two]
    cases ending with
    | result reply =>
      exact congrArg (_ ++ ·) (ih reply (later reply) state world patient state' world' patient')
    | cut | stuck | crash => rfl

end

end

/-- A site beside a session that watches. -/
abbrev stepped (site : Site σ) (control : Session → Session) : Environment Stock (σ × Session) :=
  beside site (some Session.debugger) control

section
variable {site : Site σ} {control : Session → Session} (serves : Session.Serves control)
include serves

/-- Whatever an action comes to, the session stands where its stops bring it. -/
theorem perform_shows (site : Site σ) {a : Action Stock}
    (usual : a.Plain ∨ a = .openScope ∨ ∃ previous, a = .closeScope previous) (s : RunState)
    {v : World (σ × Session)} (unlimited : v.deadline = none) {st : Standing}
    (shows : v.peers.2.Shows st) :
    ((stepped site control).perform a s v).2.2.deadline = none ∧
      ((stepped site control).perform a s v).2.2.peers.2.Shows
        ((stopEvents ((stepped site control).events a s v)).foldl Standing.heed st) := by
  by_cases silent : a.stopCount = 0
  · have steady : Log.Steady Eq := by
      rintro m r _ - rfl
      exact ⟨rfl, rfl⟩
    have step : InStep Eq (fun y => y.Shows st)
        ((alone site : Environment Stock σ).perform a s (v.map Prod.fst))
        ((stepped site control).perform a s v) :=
      perform_silent_inStep (fun y => serves.shows y st) steady usual silent ⟨rfl, rfl, rfl⟩
        ⟨rfl, unlimited, unlimited⟩ shows
    rw [stopEvents_stopless ((stepped site control).events_stopless silent s v)]
    exact ⟨step.world.unlimited_beside, step.ready⟩
  · cases a with
    | stop reason block =>
      have going : reason ≠ .finish := by simpa [Action.Plain] using usual
      obtain ⟨u, raced, peers, deadline⟩ := (calm_beside site (some Session.debugger) control).race
        unlimited (Session.debugger.right.intercept reason block s.scopes)
      have performed : (stepped site control).perform (.stop reason block) s v = (_, s, u) :=
        congrArg (fun x => (x.1, s, x.2)) raced
      rw [performed]
      refine ⟨deadline, ?_⟩
      change u.peers.2.Shows (st.heed (.of reason block s.scopes))
      obtain ⟨r, z, stopped, -, shows⟩ | ⟨ready, y, stopped, waited⟩ :=
        shows.stop serves going block s.scopes
      · simp only [Debugger.right, stopped, Answer.right, reply] at peers
        rw [peers]
        exact shows
      · simp only [Debugger.right, stopped, Answer.right, reply, beside] at peers
        obtain ⟨r, z, came, -, shows⟩ | ⟨late, -, shows⟩ := waited
        · rw [came] at peers
          rw [peers]
          exact shows
        · rw [late] at peers
          rw [peers]
          exact shows
    | _ => exact absurd rfl silent

/-- At every moment the session stands where the stops so far have brought it. -/
theorem Reaches.shows {p q : Program Stock α} {s t : RunState} {v u : World (σ × Session)}
    {past : List (Event Stock)}
    (usual : p.All fun a => a.Plain ∨ a = .openScope ∨ ∃ previous, a = .closeScope previous)
    (h : (stepped site control).Reaches p s v past q t u)
    (unlimited : v.deadline = none) {st : Standing} (shows : v.peers.2.Shows st) :
    u.peers.2.Shows ((stopEvents past).foldl Standing.heed st) := by
  induction h generalizing st with
  | here => exact shows
  | @later a resume s t s' w v w' reply past q step rest ih =>
    obtain ⟨now, later⟩ := usual
    have performed := perform_shows serves site now s unlimited shows
    rw [step] at performed
    obtain ⟨unlimited, shows⟩ := performed
    rw [stopEvents_append, List.foldl_append]
    exact ih (later reply) unlimited shows

/-- However a program ends, it leaves the session where its stops bring it. -/
theorem run_shows (site : Site σ) {p : Program Stock α}
    (usual : p.All fun a => a.Plain ∨ a = .openScope ∨ ∃ previous, a = .closeScope previous)
    (s : RunState) {v : World (σ × Session)} (unlimited : v.deadline = none) {st : Standing}
    (shows : v.peers.2.Shows st) :
    ((stepped site control).run p s v).2.2.peers.2.Shows
      ((stopEvents ((stepped site control).history p s v)).foldl Standing.heed st) := by
  induction p generalizing s v st with
  | done r => exact shows
  | act a resume ih =>
    obtain ⟨now, later⟩ := usual
    have performed := perform_shows serves site now s unlimited shows
    rw [run, history, stopEvents_append, List.foldl_append]
    generalize (stepped site control).perform a s v = x at performed ⊢
    obtain ⟨ending, t, u⟩ := x
    obtain ⟨unlimited, shows⟩ := performed
    cases ending with
    | result reply => exact ih reply (later reply) t unlimited shows
    | cut | stuck | crash => exact shows

end

end Environment

/-- What a stepper reports once the root chain is done: the last stop, and that the run is over. -/
def Script.lastEvents (script : Script Stock) (run : Run) : List StepEvent :=
  [.stopped ⟨script.root.id, script.root.kind, .finish, 1⟩,
    .finished (run.error.map ScriptError.message)]

namespace Script

theorem limited_twin {script : Script Stock} (untimed : script.settings.timeout = none)
    {w : World σ} {v : World (σ × δ)} (same : v.peers.1 = w.peers) :
    (script.limited w).Twin (script.limited v) :=
  ⟨same, by simp [limited, untimed], by simp [limited, untimed]⟩

/-- The last stop is only published. -/
theorem finish_reported {script : Script Stock} {site : Site σ} {control : Session → Session}
    {s : RunState} {y z : World (σ × Session)} {finish : Except ScriptError Unit}
    (last : script.interceptFinish (.stepped site control) s y = some (finish, z)) :
    z.peers.2 = { y.peers.2 with
      stepper := y.peers.2.stepper.publish (.stopped (.of .finish script.root s.scopes)) } := by
  rw [interceptFinish_eq_arrived script _ rfl] at last
  cases last
  rfl

theorem end_reported {site : Site σ} {control : Session → Session}
    {evaluated : Except ScriptError Value} {s : RunState} {finish : Except ScriptError Unit}
    {z u : World (σ × Session)} {run : Run}
    (left : leave (.stepped site control) evaluated s finish z = (run, u)) :
    u.peers.2 = { z.peers.2 with
      stepper := z.peers.2.stepper.publish (.finished (run.error.map ScriptError.message)) } := by
  simp only [leave] at left
  cases left
  cases outcomeOf evaluated finish with
  | ok value => rfl
  | error e => rfl

/-- From the end of the root chain on, a session is only told that the run is over. -/
theorem report_shows {script : Script Stock} {site : Site σ} {control : Session → Session}
    {x y z u : World (σ × Session)} {evaluated : Except ScriptError Value} {s : RunState}
    {finish : Except ScriptError Unit} {run : Run}
    (root : script.evaluateRoot (.stepped site control) (script.initial (.stepped site control) x)
      x = some (evaluated, s, y))
    (last : script.interceptFinish (.stepped site control) s y = some (finish, z))
    (left : leave (.stepped site control) evaluated s finish z = (run, u)) {st : Standing}
    (shows : y.peers.2.Shows st) :
    u.peers.2.Shows { st with published := st.published ++ script.lastEvents run } := by
  have event : StopEvent.of .finish script.root s.scopes =
      ⟨script.root.id, script.root.kind, .finish, 1⟩ := by
    rw [StopEvent.of, (evaluateRoot_scopes root).1]
  rw [end_reported left, finish_reported last, event]
  have reported := (shows.publish (.stopped ⟨script.root.id, script.root.kind, .finish, 1⟩)).publish
    (.finished (run.error.map ScriptError.message))
  simpa [lastEvents] using reported

variable {script : Script Stock} (untimed : script.settings.timeout = none) {site : Site σ}
  {control : Session → Session} (serves : Session.Serves control) {x : World (σ × Session)}
  {st : Standing} (shows : x.peers.2.Shows st)
include untimed serves shows

variable {d : Debugger Stock δ} {moves : δ → δ} (obliges : d.Obliges moves) {w : World σ}
  {v : World (σ × δ)} (same : v.peers.1 = w.peers) (same' : x.peers.1 = w.peers)
include obliges same same'

/-- A session that lets all stops pass changes nothing. -/
theorem run_passed
    (passes : st.Passes (stopEvents (script.history (.beside site (some d) moves) v)).length) :
    script.history (.stepped site control) x = script.history (.beside site (some d) moves) v ∧
      SameRun (script.run (.alone site) w) (script.run (.stepped site control) x) ∧
      script.crashes (.stepped site control) x = script.crashes (.alone site) w := by
  have state := initial_twin script site (some d) moves w v
  have world := limited_twin untimed same
  have count : (script.history (.beside site (some d) moves) v).countP Event.isStop =
      script.stopCount site w :=
    Environment.countP_history obliges.patience LogRecord.steady_sameButTimes
      script.root.program_orderly.all state world trivial
  have patient : ∃ st : Standing, x.peers.2.Shows st ∧ st.Passes (script.stopCount site w) := by
    refine ⟨st, shows, ?_⟩
    rwa [← count, ← length_stopEvents]
  refine ⟨?_, run_agrees untimed site (Session.patience serves) same' patient,
    crashes_agrees untimed site (Session.patience serves) same' patient⟩
  exact Environment.history_agrees obliges.patience LogRecord.steady_sameButTimes
    script.root.program_orderly.all state world trivial (Session.patience serves)
    (initial_twin script site (some Session.debugger) control w x) (limited_twin untimed same')
    patient

/-- A session that fails a stop ends the run there. -/
theorem run_stumbled {before after : List (Event Stock)} {reason : StopReason}
    {block : Block Stock} {scopes : Scopes}
    (happens : script.history (.beside site (some d) moves) v =
      before ++ .told (.stopped reason block scopes) :: after)
    (stumbles : st.Stumbles (before.countP Event.isStop)) :
    script.history (.stepped site control) x = before ++ [.told (.stopped reason block scopes)] ∧
      ∃ run u, script.run (.stepped site control) x = some (run, u) ∧
        run.error = some .aborted := by
  obtain ⟨t, u, meets, rfl, going, unlimited, exhausted⟩ := Environment.meets_faltering obliges
    (Session.falters serves) LogRecord.steady_sameButTimes script.root.program_orderly.all
    (initial_twin script site (some d) moves w v)
    (initial_twin script site (some Session.debugger) control w x) (limited_twin untimed same)
    (limited_twin untimed same') happens ⟨st, shows, stumbles⟩
  obtain ⟨y, refused⟩ := Environment.perform_refused site unlimited
    ((Session.falters serves).fails reason block t.scopes u.peers.2 going exhausted)
  obtain ⟨⟨s, ran⟩, history⟩ := meets.fails script.root.program_relays refused
  have concludes : (Environment.stepped site control).Concludes := by
    rintro _ ⟨⟩ block scopes w -
    exact ⟨_, _, rfl⟩
  obtain ⟨run, error, accounts⟩ :=
    accounts_of_failed concludes history (congrArg script.conclude ran)
  obtain ⟨u, -, ended, -⟩ := accounts.ended
  exact ⟨history, run, u, ended, error⟩

variable (bound : st.free = false)
  (enough : st.pending.findIdx (· ≠ .step) < st.pending.length ∨
    (stopEvents (script.history (.beside site (some d) moves) v)).length ≤ st.pending.length)
include bound enough

/-- How the commands of a session that does not run free yet decide a run: a command that fails a
stop of the run ends it there, otherwise they let all its stops pass. -/
theorem run_stepped :
    let observed := script.history (.beside site (some d) moves) v
    let k := st.pending.findIdx (· ≠ .step)
    (st.pending[k]? = some .abort ∧ k < (stopEvents observed).length ∧
      ∃ before reason block scopes after run u,
        observed = before ++ .told (.stopped reason block scopes) :: after ∧
        before.countP Event.isStop = k ∧
        script.history (.stepped site control) x =
          before ++ [.told (.stopped reason block scopes)] ∧
        script.run (.stepped site control) x = some (run, u) ∧ run.error = some .aborted) ∨
    ((st.pending[k]? = some .release ∨ (stopEvents observed).length ≤ k) ∧
      script.history (.stepped site control) x = observed ∧
      SameRun (script.run (.alone site) w) (script.run (.stepped site control) x) ∧
      script.crashes (.stepped site control) x = script.crashes (.alone site) w) := by
  intro observed k
  obtain ⟨rest, sent, head, other⟩ := StepCommand.exists_steps st.pending
  by_cases fails : st.pending[k]? = some .abort ∧ k < (stopEvents observed).length
  · obtain ⟨before, reason, block, scopes, after, split, count⟩ := exists_stop_after fails.2
    obtain ⟨others, rfl⟩ := List.head?_eq_some_iff.mp (head.trans fails.1)
    have stumbles : st.Stumbles (before.countP Event.isStop) := ⟨bound, others, count ▸ sent⟩
    obtain ⟨history, run, u, ended, error⟩ :=
      run_stumbled untimed serves shows obliges same same' split stumbles
    exact .inl ⟨fails.1, fails.2, before, reason, block, scopes, after, run, u, split, count,
      history, ended, error⟩
  · have lets : st.pending[k]? = some .release ∨ (stopEvents observed).length ≤ k := by
      cases next : st.pending[k]? with
      | none =>
        -- Nothing but steps, so the commands are as many as the steps among them.
        have short : st.pending.length ≤ k := List.getElem?_eq_none_iff.mp next
        have few := enough.resolve_left (Nat.not_lt.mpr short)
        exact .inr (Nat.le_trans few short)
      | some c =>
        cases c with
        | step => exact absurd (head.trans next) other
        | release => exact .inl rfl
        | abort => exact .inr (Nat.not_lt.mp fun short => fails ⟨next, short⟩)
    have passes : st.Passes (stopEvents observed).length :=
      .inr ⟨k, rest, sent, head ▸ lets.symm⟩
    exact .inr ⟨lets, run_passed untimed serves shows obliges same same' passes⟩

/-- The stops of a stepped run are the first of those that are granted, and all that the commands
let come. -/
theorem stops_stepped :
    let stops := stopEvents (script.history (.beside site (some d) moves) v)
    let seen := stopEvents (script.history (.stepped site control) x)
    let k := st.pending.findIdx (· ≠ .step)
    seen <+: stops ∧ min seen.length (k + 1) = min stops.length (k + 1) ∧
      (seen.length ≤ k + 1 ∨ st.pending[k]? = some .release) := by
  intro stops seen k
  obtain ⟨-, more, before, reason, block, scopes, after, -, -, split, count, history, -⟩ |
      ⟨lets, history, -⟩ :=
    run_stepped untimed serves shows obliges same same' bound enough
  · have seen_eq : seen = stopEvents before ++ [.of reason block scopes] := by
      simp only [seen, history, stopEvents_append]
      rfl
    have stops_eq : stops = seen ++ stopEvents after := by
      simp only [stops, split, seen_eq, stopEvents_append, List.append_assoc]
      rfl
    have length : seen.length = k + 1 := by
      rw [seen_eq, List.length_append, length_stopEvents, count]
      rfl
    have longer : seen.length ≤ stops.length := by simp [stops_eq]
    exact ⟨⟨_, stops_eq.symm⟩, by omega, .inl (by omega)⟩
  · have same : seen = stops := congrArg stopEvents history
    refine ⟨same ▸ List.prefix_rfl, by rw [same], ?_⟩
    obtain released | few := lets
    · exact .inr released
    · have few : stops.length ≤ k := few
      exact .inl (by rw [same]; omega)

/-- Where a session stands when the root chain of a stepped run is done, however it ends. -/
theorem root_stepped :
    let stops := stopEvents (script.history (.beside site (some d) moves) v)
    let n := min stops.length (st.pending.findIdx (· ≠ .step) + 1)
    ∃ free, ((Environment.stepped site control).run script.root.program
        (script.initial (.stepped site control) x) (script.limited x)).2.2.peers.2.Shows
      ⟨free, st.pending.drop n, st.published ++ (stops.take n).map .stopped⟩ := by
  obtain ⟨first, all, fits⟩ := stops_stepped untimed serves shows obliges same same' bound enough
  have unlimited : (script.limited x).deadline = none := by simp [limited, untimed]
  have stands := Environment.run_shows serves site script.root.program_orderly.all
    (script.initial (.stepped site control) x) unlimited shows
  change Session.Shows _ ((stopEvents (script.history (.stepped site control) x)).foldl _ _)
    at stands
  obtain ⟨free, after⟩ := st.exists_foldl_heed bound first fits
  rw [after, all] at stands
  exact ⟨free, stands⟩

/-- Where a session stands when a stepped run is over. -/
theorem ends_stepped {run : Run} {u : World (σ × Session)}
    (ended : script.run (.stepped site control) x = some (run, u)) :
    let stops := stopEvents (script.history (.beside site (some d) moves) v)
    let n := min stops.length (st.pending.findIdx (· ≠ .step) + 1)
    ∃ free, u.peers.2.Shows
      ⟨free, st.pending.drop n,
        st.published ++ (stops.take n).map .stopped ++ script.lastEvents run⟩ := by
  obtain ⟨evaluated, s, y, finish, z, root, last, left⟩ := run_parts ended
  obtain ⟨y', ran⟩ := evaluateRoot_result untimed root
  obtain ⟨free, stands⟩ := root_stepped untimed serves shows obliges same same' bound enough
  rw [ran] at stands
  have deadline_lifted : y.peers = y'.peers := by
    rw [evaluateRoot_eq_conclude, ran] at root
    cases root
    rfl
  exact ⟨free, report_shows root last left (deadline_lifted ▸ stands)⟩

end Script

end BlockScript
