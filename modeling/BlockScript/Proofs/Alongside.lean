import BlockScript.Proofs.Recording
/-!
A run, and the same run with somebody alongside.

The site has a state of its own, and so has whoever watches. A site that is asked the same gives
the same answers, whatever happens beside it; so as long as every stop is granted the two runs stay
in step, and only their clocks differ.
-/

namespace BlockScript

variable {β σ δ ε α : Type}

namespace Answer

/-- The answer of someone whose state is the second part of a pair. -/
def right : Answer δ α → Answer (σ × δ) α
  | .now r => .now r
  | .later ms r => .later ms r
  | .once ready => .once fun e => (ready e.2).map fun (r, y) => (r, (e.1, y))

/-- The waiting for an answer ends with consent. Whoever answers moves on while the script waits. -/
def Grants (moves : δ → δ) (y : δ) : Answer δ Unit → δ → Prop
  | .now r, z => r = .ok () ∧ z = y
  | .later ms r, z => r = .ok () ∧ z = if ms = 0 then y else moves y
  | .once ready, z => ready (moves y) = some (.ok (), z)

end Answer

def Site.left (site : Site σ) : Site (σ × δ) where
  presets := site.presets
  call service args e :=
    let x := site.call service args e.1
    (x.1.left, (x.2, e.2))
  spawn name presets e :=
    let x := site.spawn name presets e.1
    (x.1.left, (x.2, e.2))
  room count e := site.room count e.1

def Debugger.right (d : Debugger β δ) : Debugger β (σ × δ) where
  intercept reason block scopes e :=
    let x := d.intercept reason block scopes e.2
    (x.1.right, (e.1, x.2))
  finished error e := (e.1, d.finished error e.2)

namespace Environment

/-- A site that nobody watches, where nothing is ever aborted. -/
def alone (site : Site σ) : Environment β σ where
  site := site
  debugger := none
  aborted _ := false
  abort x := x
  react x := x

/-- The same site beside somebody who may watch, and who moves on while the script waits. -/
def beside (site : Site σ) (watcher : Option (Debugger β δ)) (moves : δ → δ) :
    Environment β (σ × δ) where
  site := site.left
  debugger := watcher.map Debugger.right
  aborted _ := false
  abort e := e
  react e := (e.1, moves e.2)

/-- What an answer comes to, the clock aside. -/
def reply (env : Environment β ε) (answer : Answer ε α) (e : ε) : Ending α × ε :=
  match answer with
  | .now r => (.result r, e)
  | .later ms r => (.result r, if ms = 0 then e else env.react e)
  | .once ready =>
    match ready (env.react e) with
    | some (r, e) => (.result r, e)
    | none => (.stuck, env.react e)

/-- Nothing is ever aborted. -/
structure Calm (env : Environment β ε) : Prop where
  quiet : ∀ e, env.aborted e = false
  still : ∀ e, env.abort e = e

theorem calm_alone (site : Site σ) : (alone site : Environment β σ).Calm :=
  ⟨fun _ => rfl, fun _ => rfl⟩

theorem calm_beside (site : Site σ) (watcher : Option (Debugger β δ)) (moves : δ → δ) :
    (beside site watcher moves).Calm :=
  ⟨fun _ => rfl, fun _ => rfl⟩

namespace Calm

variable {env : Environment β ε} (calm : env.Calm) {w : World ε} (unlimited : w.deadline = none)
include calm unlimited

theorem passAbort (due : Option Nat) :
    (env.passAbort due w).peers = w.peers ∧ (env.passAbort due w).deadline = none := by
  unfold Environment.passAbort
  split
  · exact ⟨rfl, unlimited⟩
  · split
    · exact ⟨calm.still w.peers, unlimited⟩
    · exact ⟨rfl, unlimited⟩

theorem suspend (raced : Bool) (due : Option (Nat × Except ScriptError α))
    (ready : ε → Option (Except ScriptError α × ε)) :
    ∃ v, env.suspend raced due ready w =
        (match ready (env.react w.peers) with
          | some (r, _) => .result r
          | none => due.elim .stuck fun d => .result d.2, v) ∧
      v.peers = ((ready (env.react w.peers)).elim (env.react w.peers) Prod.snd) ∧
      v.deadline = none := by
  rw [suspend_eq_settle, if_neg (by simp [unlimited])]
  simp only [settle, calm.quiet, Bool.and_false, Bool.false_eq_true, ↓reduceIte]
  cases ready (env.react w.peers) with
  | some x => exact ⟨_, rfl, rfl, unlimited⟩
  | none =>
    obtain ⟨peers, deadline⟩ := calm.passAbort (w := { w with peers := env.react w.peers })
      unlimited (due.map Prod.fst)
    generalize env.passAbort (due.map Prod.fst) { w with peers := env.react w.peers } = u
      at peers deadline ⊢
    cases due with
    | none => exact ⟨u, by simp [passTime, deadline], peers, deadline⟩
    | some d => exact ⟨{ u with now := d.1 }, by simp [passTime, deadline], peers, deadline⟩

/-- Without aborts and deadlines an answer comes to the same whatever the clock says. -/
theorem await (raced : Bool) (answer : Answer ε α) :
    ∃ v, env.await raced answer w = ((env.reply answer w.peers).1, v) ∧
      v.peers = (env.reply answer w.peers).2 ∧ v.deadline = none := by
  cases answer with
  | now r => exact ⟨w, rfl, rfl, unlimited⟩
  | later ms r =>
    by_cases soon : ms = 0
    · exact ⟨w, by simp [Environment.await, reply, soon], by simp [reply, soon], unlimited⟩
    · obtain ⟨v, ends, peers, deadline⟩ :=
        calm.suspend unlimited raced (some (w.now + ms, r)) fun _ => none
      refine ⟨v, ?_, ?_, deadline⟩
      · simpa [Environment.await, reply, soon] using ends
      · simpa [reply, soon] using peers
  | once ready =>
    obtain ⟨v, ends, peers, deadline⟩ := calm.suspend unlimited raced none ready
    refine ⟨v, ?_, ?_, deadline⟩
    · simp only [Environment.await, reply, ends]
      cases ready (env.react w.peers) <;> rfl
    · simp only [reply, peers]
      cases ready (env.react w.peers) <;> rfl

theorem race (ask : ε → Answer ε α × ε) :
    ∃ v, env.race ask w = ((env.reply (ask w.peers).1 (ask w.peers).2).1, v) ∧
      v.peers = (env.reply (ask w.peers).1 (ask w.peers).2).2 ∧ v.deadline = none := by
  simp only [Environment.race, calm.quiet, Bool.false_eq_true, ↓reduceIte]
  exact calm.await (w := { w with peers := (ask w.peers).2 }) unlimited true (ask w.peers).1

end Calm

variable {site : Site σ} {watcher : Option (Debugger β δ)} {moves : δ → δ}

/-- A site answers alike in company; whoever is beside it may have moved on meanwhile. -/
theorem reply_left (site : Site σ) (watcher : Option (Debugger β δ)) (moves : δ → δ)
    (answer : Answer σ α) (x : σ) (y : δ) :
    let one := (alone site : Environment β σ).reply answer x
    let two := (beside site watcher moves).reply answer.left (x, y)
    two.1 = one.1 ∧ two.2.1 = one.2 ∧ (two.2.2 = y ∨ two.2.2 = moves y) := by
  cases answer with
  | now r => exact ⟨rfl, rfl, .inl rfl⟩
  | later ms r =>
    by_cases soon : ms = 0
    · simp [reply, Answer.left, soon]
    · simp [reply, Answer.left, soon, alone, beside]
  | once ready =>
    simp only [reply, Answer.left, alone, beside]
    cases ready x with
    | none => exact ⟨rfl, rfl, .inr rfl⟩
    | some q => exact ⟨rfl, rfl, .inr rfl⟩

theorem reply_right {answer : Answer δ Unit} (x : σ) {y z : δ} (grants : answer.Grants moves y z) :
    (beside site watcher moves).reply answer.right (x, y) = (.result (.ok ()), (x, z)) := by
  cases answer with
  | now r =>
    obtain ⟨rfl, rfl⟩ := grants
    rfl
  | later ms r =>
    obtain ⟨rfl, rfl⟩ := grants
    by_cases soon : ms = 0
    · simp [reply, Answer.right, soon]
    · simp [reply, Answer.right, soon, beside]
  | once ready =>
    have ready : ready (moves y) = some (.ok (), z) := grants
    simp [reply, Answer.right, beside, ready]

end Environment

/-- A watcher in a state that is ready for a number of stops grants that many, and the last one of
a run besides. -/
structure Patience (watcher : Option (Debugger β δ)) (moves : δ → δ) (ready : Nat → δ → Prop) :
    Prop where
  stop : ∀ d ∈ watcher, ∀ reason block scopes n y, reason ≠ .finish → ready (n + 1) y →
    ∃ z, (d.intercept reason block scopes y).1.Grants moves
      (d.intercept reason block scopes y).2 z ∧ ready n z
  finish : ∀ d ∈ watcher, ∀ block scopes n y, ready n y →
    ∃ z, (d.intercept .finish block scopes y).1.Grants moves
      (d.intercept .finish block scopes y).2 z
  moves : ∀ n y, ready n y → ready n (moves y)
  fewer : ∀ n y, ready (n + 1) y → ready n y

/-- Where nobody watches, there is nothing to grant. -/
theorem Patience.unwatched {moves : δ → δ} {left : δ → Prop}
    (untouched : ∀ y, left y → left (moves y)) :
    Patience (none : Option (Debugger β δ)) moves fun _ => left :=
  ⟨nofun, nofun, fun _ => untouched, fun _ _ h => h⟩

/-- The same site state in both worlds, and no deadline in either. The clocks may differ. -/
structure World.Twin (w : World σ) (v : World (σ × δ)) : Prop where
  site : v.peers.1 = w.peers
  unlimited : w.deadline = none
  unlimited_beside : v.deadline = none

/-- The same state of a run, the log records aside, which are related. -/
structure RunState.Twin (logs : LogRecord → LogRecord → Prop) (s t : RunState) : Prop where
  scopes : t.scopes = s.scopes
  settled : t.settled = s.settled
  log : logs s.log t.log

/-- Two programs came to the same, with a watcher that is ready for so many stops more. -/
structure InStep (logs : LogRecord → LogRecord → Prop) (ready : δ → Prop)
    (x : Ending α × RunState × World σ) (y : Ending α × RunState × World (σ × δ)) : Prop where
  ending : y.1 = x.1
  state : x.2.1.Twin logs y.2.1
  world : x.2.2.Twin y.2.2
  ready : ready y.2.2.peers.2

/-- Relations between log records that the modifiers of standard blocks cannot tell apart. -/
def Log.Steady (logs : LogRecord → LogRecord → Prop) : Prop :=
  ∀ m r q, Modifier.Stocked m → logs r q →
    (attach m q).1 = (attach m r).1 ∧ logs (attach m r).2 (attach m q).2

/-- How many stops an action is. -/
def Action.stopCount : Action β → Nat
  | .stop _ _ => 1
  | _ => 0

namespace Environment

variable {site : Site σ} {watcher : Option (Debugger β δ)} {moves : δ → δ}
  {logs : LogRecord → LogRecord → Prop}

/-- A stop that is granted goes unnoticed by the site. -/
theorem perform_granted (site : Site σ) {d : Debugger β δ} {reason : StopReason}
    {block : Block β} {t : RunState} {w : World σ} {v : World (σ × δ)} (twin : w.Twin v) {z : δ}
    (grants : (d.intercept reason block t.scopes v.peers.2).1.Grants moves
      (d.intercept reason block t.scopes v.peers.2).2 z) :
    ∃ u, (beside site (some d) moves).perform (.stop reason block) t v =
        (.result (.ok ()), t, u) ∧ w.Twin u ∧ u.peers.2 = z := by
  obtain ⟨u, raced, peers, deadline⟩ := (calm_beside site (some d) moves).race
    twin.unlimited_beside (d.right.intercept reason block t.scopes)
  have granted : (beside site (some d) moves).reply
      (d.right.intercept reason block t.scopes v.peers).1
      (d.right.intercept reason block t.scopes v.peers).2 = (.result (.ok ()), (v.peers.1, z)) :=
    reply_right v.peers.1 grants
  rw [granted] at raced peers
  refine ⟨u, congrArg (fun x => (x.1, t, x.2)) raced, ⟨?_, twin.unlimited, deadline⟩,
    by rw [peers]⟩
  rw [peers]
  exact twin.site

/-- A stop that no signal prevents is waited for all the same. -/
theorem await_granted (site : Site σ) {d : Debugger β δ} {reason : StopReason} {block : Block β}
    {scopes : Scopes} {v : World (σ × δ)} (unlimited : v.deadline = none) {z : δ}
    (grants : (d.intercept reason block scopes v.peers.2).1.Grants moves
      (d.intercept reason block scopes v.peers.2).2 z) :
    ∃ u, (beside site (some d) moves).await false (d.right.intercept reason block scopes v.peers).1
        { v with peers := (d.right.intercept reason block scopes v.peers).2 } =
          (.result (.ok ()), u) ∧
      u.peers.1 = v.peers.1 ∧ u.deadline = none := by
  obtain ⟨u, awaited, peers, deadline⟩ := (calm_beside site (some d) moves).await
    (w := { v with peers := (d.right.intercept reason block scopes v.peers).2 }) unlimited false
    (d.right.intercept reason block scopes v.peers).1
  have granted : (beside site (some d) moves).reply
      (d.right.intercept reason block scopes v.peers).1
      (d.right.intercept reason block scopes v.peers).2 = (.result (.ok ()), (v.peers.1, z)) :=
    reply_right v.peers.1 grants
  rw [granted] at awaited peers
  exact ⟨u, awaited, by rw [peers], deadline⟩

section
variable {ready : δ → Prop} (still : ∀ y, ready y → ready (moves y))
include still

/-- Asking the site keeps two worlds twins. -/
theorem race_left {w : World σ} {v : World (σ × δ)} (twin : w.Twin v) (patient : ready v.peers.2)
    (ask : σ → Answer σ α × σ) :
    ∃ ending u t, (alone site : Environment β σ).race ask w = (ending, u) ∧
      (beside site watcher moves).race (fun e => ((ask e.1).1.left, ((ask e.1).2, e.2))) v =
        (ending, t) ∧
      u.Twin t ∧ ready t.peers.2 := by
  have calm : (alone site : Environment β σ).Calm := calm_alone site
  obtain ⟨u, one, peers, deadline⟩ := calm.race twin.unlimited ask
  obtain ⟨t, two, peers', deadline'⟩ := (calm_beside site watcher moves).race
    twin.unlimited_beside fun e => ((ask e.1).1.left, ((ask e.1).2, e.2))
  obtain ⟨ending, same, moved⟩ :=
    reply_left site watcher moves (ask w.peers).1 (ask w.peers).2 v.peers.2
  rw [twin.site] at two peers'
  refine ⟨_, u, t, one, ?_, ⟨?_, deadline, deadline'⟩, ?_⟩
  · rw [two, ending]
  · rw [peers', peers, same]
  · rw [peers']
    obtain eq | eq := moved
    · rw [eq]
      exact patient
    · rw [eq]
      exact still _ patient

theorem perform_call_inStep (service : String) (args : List Value) {s t : RunState} {w : World σ}
    {v : World (σ × δ)} (state : s.Twin logs t) (world : w.Twin v) (patient : ready v.peers.2) :
    InStep logs ready ((alone site : Environment β σ).perform (.call service args) s w)
      ((beside site watcher moves).perform (.call service args) t v) := by
  obtain ⟨ending, u, u', one, two, world, patient⟩ :=
    race_left still world patient (site.call service args)
  have performed : (alone site : Environment β σ).perform (.call service args) s w =
      (ending, s, u) := congrArg (fun x => (x.1, s, x.2)) one
  have performed' : (beside site watcher moves).perform (.call service args) t v =
      (ending, t, u') := congrArg (fun x => (x.1, t, x.2)) two
  rw [performed, performed']
  exact ⟨rfl, state, world, patient⟩

theorem perform_spawn_inStep (name : String) (presets : Bindings) {s t : RunState} {w : World σ}
    {v : World (σ × δ)} (state : s.Twin logs t) (world : w.Twin v) (patient : ready v.peers.2) :
    InStep logs ready ((alone site : Environment β σ).perform (.spawn name presets) s w)
      ((beside site watcher moves).perform (.spawn name presets) t v) := by
  obtain ⟨ending, u, u', one, two, world, patient⟩ :=
    race_left still world patient (site.spawn name presets)
  have raced : (alone site : Environment β σ).race
      ((alone site : Environment β σ).site.spawn name presets) w = (ending, u) := one
  have raced' : (beside site watcher moves).race
      ((beside site watcher moves).site.spawn name presets) v = (ending, u') := two
  simp only [perform, raced, raced']
  cases ending with
  | result r =>
    cases r with
    | ok child => exact ⟨rfl, ⟨state.scopes, by rw [state.settled], state.log⟩, world, patient⟩
    | error e => exact ⟨rfl, state, world, patient⟩
  | cut | stuck | crash => exact ⟨rfl, state, world, patient⟩

/-- An action that is no stop does not concern whoever watches. -/
theorem perform_silent_inStep (steady : Log.Steady logs) {a : Action β}
    (usual : a.Plain ∨ a = .openScope ∨ ∃ previous, a = .closeScope previous)
    (silent : a.stopCount = 0) {s t : RunState} {w : World σ} {v : World (σ × δ)}
    (state : s.Twin logs t) (world : w.Twin v) (patient : ready v.peers.2) :
    InStep logs ready ((alone site : Environment β σ).perform a s w)
      ((beside site watcher moves).perform a t v) := by
  obtain plain | rfl | ⟨previous, rfl⟩ := usual
  · cases a with
    | stop => cases silent
    | call service args => exact perform_call_inStep still service args state world patient
    | spawn name presets => exact perform_spawn_inStep still name presets state world patient
    | attach m =>
      obtain ⟨result, log⟩ := steady m s.log t.log plain state.log
      exact ⟨by simp only [perform, result], ⟨state.scopes, state.settled, log⟩, world, patient⟩
    | lookup name => exact ⟨by simp only [perform, state.scopes], state, world, patient⟩
    | assign name value =>
      exact ⟨rfl, ⟨by simp only [perform, state.scopes], state.settled, state.log⟩, world, patient⟩
    | assignGlobal name value =>
      exact ⟨rfl, ⟨by simp only [perform, state.scopes], state.settled, state.log⟩, world, patient⟩
    | reserve count =>
      have same : (beside site watcher moves).site.grants count v.peers =
          site.grants count w.peers := congrArg (site.grants count) world.site
      exact ⟨by simp only [perform, same]; rfl, state, world, patient⟩
    | checkAbort | crash => exact ⟨rfl, state, world, patient⟩
    | openScope | openRootScope | closeScope | wait | sleep | scopeDepth | readLog => cases plain
  · exact ⟨by simp only [perform, state.scopes],
      ⟨by simp only [perform, state.scopes], state.settled, state.log⟩, world, patient⟩
  · exact ⟨rfl, ⟨by simp only [perform, state.scopes], state.settled, state.log⟩, world, patient⟩

end

variable {ready : Nat → δ → Prop} (patience : Patience watcher moves ready)
  (steady : Log.Steady logs)
include patience

theorem perform_stop_inStep {reason : StopReason} {block : Block β} (going : reason ≠ .finish)
    {s t : RunState} {w : World σ} {v : World (σ × δ)} (state : s.Twin logs t) (world : w.Twin v)
    {n : Nat} (patient : ready (n + 1) v.peers.2) :
    InStep logs (ready n) ((alone site : Environment β σ).perform (.stop reason block) s w)
      ((beside site watcher moves).perform (.stop reason block) t v) := by
  cases watcher with
  | none => exact ⟨rfl, state, world, patience.fewer n _ patient⟩
  | some d =>
    obtain ⟨z, grants, patient⟩ := patience.stop d rfl reason block t.scopes n _ going patient
    obtain ⟨u, granted, world, rfl⟩ := perform_granted site world grants
    rw [granted]
    exact ⟨rfl, state, world, patient⟩

include steady

/-- One action, alone and in company. -/
theorem perform_inStep {a : Action β}
    (usual : a.Plain ∨ a = .openScope ∨ ∃ previous, a = .closeScope previous) {s t : RunState}
    {w : World σ} {v : World (σ × δ)} (state : s.Twin logs t) (world : w.Twin v) {n : Nat}
    (patient : ready (n + a.stopCount) v.peers.2) :
    InStep logs (ready n) ((alone site : Environment β σ).perform a s w)
      ((beside site watcher moves).perform a t v) := by
  cases a with
  | stop reason block =>
    have going : reason ≠ .finish := by simpa [Action.Plain] using usual
    exact perform_stop_inStep patience going state world patient
  | _ => exact perform_silent_inStep (patience.moves n) steady usual rfl state world patient

/-- How many stops the run of a program comes to. -/
def stopCount (env : Environment β ε) : Program β α → RunState → World ε → Nat
  | .done _, _, _ => 0
  | .act a resume, s, w =>
    (match env.perform a s w with
      | (.result reply, s, w) => env.stopCount (resume reply) s w
      | _ => 0) + a.stopCount

/-- A whole program, alone and in company that is ready for all its stops. -/
theorem run_inStep {p : Program β α}
    (usual : p.All fun a => a.Plain ∨ a = .openScope ∨ ∃ previous, a = .closeScope previous)
    {s t : RunState} {w : World σ} {v : World (σ × δ)} (state : s.Twin logs t) (world : w.Twin v)
    {n : Nat} (patient : ready (n + (alone site : Environment β σ).stopCount p s w) v.peers.2) :
    InStep logs (ready n) ((alone site : Environment β σ).run p s w)
      ((beside site watcher moves).run p t v) := by
  induction p generalizing s t w v with
  | done r => exact ⟨rfl, state, world, patient⟩
  | act a resume ih =>
    obtain ⟨now, later⟩ := usual
    -- The stops of the rest are held in reserve while this action is performed.
    rw [stopCount, ← Nat.add_assoc] at patient
    have step : InStep logs _ ((alone site : Environment β σ).perform a s w)
        ((beside site watcher moves).perform a t v) :=
      perform_inStep patience steady now state world patient
    rcases one : (alone site : Environment β σ).perform a s w with ⟨ending, s', w'⟩
    rcases two : (beside site watcher moves).perform a t v with ⟨ending', t', v'⟩
    rw [one, two] at step
    obtain ⟨ending_eq, state, world, patient⟩ := step
    cases ending_eq
    simp only [run, one, two]
    cases ending with
    | result reply => exact ih reply (later reply) state world patient
    | cut | stuck | crash => exact ⟨rfl, state, world, patient⟩

end Environment

end BlockScript
