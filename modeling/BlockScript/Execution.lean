import BlockScript.Environment
/-!
Running programs.

What a run changes of its own are its scopes, its log record, and whether all its children have
come to an end. Everything else is in the world around it.
-/

namespace BlockScript

structure RunState where
  scopes : Scopes
  log : LogRecord
  /-- Whether every child reported so far had come to an end. -/
  settled : Bool

namespace Environment

variable {β ε α : Type}

/-- Performs one action. -/
def perform (env : Environment β ε) (action : Action β) (s : RunState) (w : World ε) :
    Ending action.Reply × RunState × World ε :=
  match action with
  | .checkAbort =>
    (.result (if env.aborted w.peers then .error .aborted else .ok ()), s, w)
  | .stop reason block =>
    match env.debugger with
    | none => (.result (.ok ()), s, w)
    | some d =>
      let (ending, w) := env.race (d.intercept reason block s.scopes) w
      (ending, s, w)
  | .lookup name => (.result (.ok (s.scopes.get name)), s, w)
  | .assign name value => (.result (.ok ()), { s with scopes := s.scopes.set name value }, w)
  | .assignGlobal name value =>
    (.result (.ok ()), { s with scopes := s.scopes.setGlobal name value }, w)
  | .openScope => (.result (.ok s.scopes.current), { s with scopes := s.scopes.openScope }, w)
  | .openRootScope =>
    (.result (.ok s.scopes.current), { s with scopes := s.scopes.openUnder 0 }, w)
  | .closeScope previous =>
    (.result (.ok ()), { s with scopes := s.scopes.closeScope previous }, w)
  | .attach modifier =>
    let (result, log) := Log.attach modifier s.log
    (.result (result.mapError .modifier), { s with log }, w)
  | .call service args =>
    let (ending, w) := env.race (env.site.call service args) w
    (ending, s, w)
  | .spawn name presets =>
    let (ending, w) := env.race (env.site.spawn name presets) w
    match ending with
    | .result (.ok child) =>
      (.result (.ok child), { s with settled := s.settled && child.outcome.isTerminal }, w)
    | other => (other, s, w)
  | .wait ms =>
    let (ending, w) := env.race (fun peers => (.later ms (.ok ()), peers)) w
    (ending, s, w)
  | .sleep ms =>
    let (ending, w) := env.await false (.later ms (.ok ())) w
    (ending, s, w)
  | .scopeDepth => (.result (.ok s.scopes.depth), s, w)
  | .readLog => (.result (.ok s.log), s, w)
  | .reserve count =>
    (if env.site.grants count w.peers then .result (.ok ()) else .crash, s, w)
  | .crash => (.crash, s, w)

/-- Runs a program to its end. -/
def run (env : Environment β ε) :
    Program β α → RunState → World ε → Ending α × RunState × World ε
  | .done result, s, w => (.result result, s, w)
  | .act action resume, s, w =>
    match env.perform action s w with
    | (.result reply, s, w) => env.run (resume reply) s w
    | (.cut, s, w) => (.cut, s, w)
    | (.stuck, s, w) => (.stuck, s, w)
    | (.crash, s, w) => (.crash, s, w)

end Environment

end BlockScript
