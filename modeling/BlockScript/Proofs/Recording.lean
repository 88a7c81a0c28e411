import BlockScript.Proofs.Composition
import BlockScript.Proofs.Mirroring
/-!
What passes between a run and its collaborators, taken down.

A recorded environment is the given one with a list beside its state, to which every interception
and every request is added as it happens. The list changes nothing else: a recorded run is the
run itself, and the list only grows.
-/

namespace BlockScript

/-- What a debugger is told, or what a site is asked. -/
inductive Notice (β : Type) where
  | stopped (reason : StopReason) (block : Block β) (scopes : Scopes)
  | finished (error : Option ScriptError)
  | called (service : String) (args : List Value)
  | spawned (name : String) (presets : Bindings)

namespace Answer

variable {ε ζ α : Type}

/-- The answer of someone whose state is the first part of a pair. -/
def left : Answer ε α → Answer (ε × ζ) α
  | .now r => .now r
  | .later ms r => .later ms r
  | .once ready => .once fun e => (ready e.1).map fun (r, x) => (r, (x, e.2))

end Answer

namespace World

variable {ε ζ : Type}

def map (f : ε → ζ) (w : World ε) : World ζ :=
  { peers := f w.peers, origin := w.origin, now := w.now, abortAt := w.abortAt,
    deadline := w.deadline }

/-- The world with a list beside the state of the collaborators. -/
def beside (w : World ε) (told : List ζ) : World (ε × List ζ) :=
  w.map fun e => (e, told)

end World

section
variable {β ε α : Type}

namespace Site

def recorded (site : Site ε) : Site (ε × List (Notice β)) where
  presets := site.presets
  call service args e :=
    let x := site.call service args e.1
    (x.1.left, (x.2, e.2 ++ [.called service args]))
  spawn name presets e :=
    let x := site.spawn name presets e.1
    (x.1.left, (x.2, e.2 ++ [.spawned name presets]))
  room count e := site.room count e.1

end Site

namespace Debugger

def recorded (d : Debugger β ε) : Debugger β (ε × List (Notice β)) where
  intercept reason block scopes e :=
    let x := d.intercept reason block scopes e.1
    (x.1.left, (x.2, e.2 ++ [.stopped reason block scopes]))
  finished error e := (d.finished error e.1, e.2 ++ [.finished error])

end Debugger

namespace Environment

def recorded (env : Environment β ε) : Environment β (ε × List (Notice β)) where
  site := env.site.recorded
  debugger := env.debugger.map Debugger.recorded
  aborted e := env.aborted e.1
  abort e := (env.abort e.1, e.2)
  react e := (env.react e.1, e.2)

/-- What an action gives to take down. A raised signal comes before any collaborator. -/
def notices (env : Environment β ε) (a : Action β) (s : RunState) (e : ε) : List (Notice β) :=
  if env.aborted e then []
  else
    match a with
    | .stop reason block =>
      if env.debugger.isSome then [.stopped reason block s.scopes] else []
    | .call service args => [.called service args]
    | .spawn name presets => [.spawned name presets]
    | _ => []

variable (env : Environment β ε)

theorem recorded_debugger {d : Debugger β ε} (watched : env.debugger = some d) :
    env.recorded.debugger = some d.recorded := by
  simp [recorded, watched]

theorem mirrors_recorded (told : List (Notice β)) :
    env.Mirrors (fun e => (e, told)) env.recorded :=
  ⟨fun _ => rfl, fun _ => rfl, fun _ => rfl⟩

theorem await_recorded (raced : Bool) (a : Answer ε α) (w : World ε) (told : List (Notice β)) :
    env.recorded.await raced a.left (w.beside told) =
      ((env.await raced a w).1, (env.await raced a w).2.beside told) := by
  have answers : a.Mirrors (fun e => (e, told)) a.left := by
    cases a with
    | now r => rfl
    | later ms r => exact ⟨rfl, rfl⟩
    | once ready => exact fun _ => rfl
  exact (env.mirrors_recorded told).await id answers raced w

theorem race_recorded (ask : ε → Answer ε α × ε) (told news : List (Notice β)) (w : World ε) :
    env.recorded.race (fun e => ((ask e.1).1.left, ((ask e.1).2, e.2 ++ news))) (w.beside told) =
      ((env.race ask w).1,
        (env.race ask w).2.beside (told ++ if env.aborted w.peers then [] else news)) := by
  have signal : env.recorded.aborted (w.beside told).peers = env.aborted w.peers := rfl
  simp only [race, signal]
  split
  · simp
  · exact env.await_recorded true (ask w.peers).1 { w with peers := (ask w.peers).2 } (told ++ news)

theorem perform_recorded (a : Action β) (s : RunState) (w : World ε) (told : List (Notice β)) :
    env.recorded.perform a s (w.beside told) =
      ((env.perform a s w).1, (env.perform a s w).2.1,
        (env.perform a s w).2.2.beside (told ++ env.notices a s w.peers)) := by
  -- A stop, a call and a child run turn to somebody; all else leaves the list as it is.
  have silent : (told ++ if env.aborted w.peers then [] else []) = told := by simp
  cases a with
  | stop reason block =>
    cases hd : env.debugger with
    | none => simp [perform, notices, recorded, hd]
    | some d =>
      have watched := env.recorded_debugger hd
      have step := env.race_recorded (d.intercept reason block s.scopes) told
        [.stopped reason block s.scopes] w
      simp only [perform, hd, watched, notices, Option.isSome_some, ↓reduceIte]
      exact congrArg (fun x => (x.1, s, x.2)) step
  | call service args =>
    have step := env.race_recorded (env.site.call service args) told [.called service args] w
    exact congrArg (fun x => (x.1, s, x.2)) step
  | spawn name presets =>
    have step : env.recorded.race (env.recorded.site.spawn name presets) (w.beside told) = _ :=
      env.race_recorded (env.site.spawn name presets) told [.spawned name presets] w
    rcases hx : env.race (env.site.spawn name presets) w with ⟨ending, v⟩
    rw [hx] at step
    cases ending with
    | result r => cases r <;> simp only [perform, hx, step, notices]
    | cut | stuck | crash => simp only [perform, hx, step, notices]
  | wait ms =>
    have step := env.race_recorded (fun e => (.later ms (.ok ()), e)) told [] w
    simp only [List.append_nil, ite_self, Answer.left] at step
    simp only [perform, notices, silent]
    exact congrArg (fun x => (x.1, s, x.2)) step
  | sleep ms =>
    have step := env.await_recorded false (.later ms (.ok ())) w told
    simp only [perform, notices, silent]
    exact congrArg (fun x => (x.1, s, x.2)) step
  | checkAbort | reserve =>
    simp only [perform, notices, silent]
    rfl
  | _ => simp only [perform, notices, silent]

/-- What a program gives to take down until it ends. -/
def news : Program β α → RunState → World ε → List (Notice β)
  | .done _, _, _ => []
  | .act a resume, s, w =>
    env.notices a s w.peers ++
      match env.perform a s w with
      | (.result reply, s, w) => news (resume reply) s w
      | _ => []

/-- A recorded run is the run itself, and the list grows by what it gives to take down. -/
theorem run_recorded (p : Program β α) (s : RunState) (w : World ε) (told : List (Notice β)) :
    env.recorded.run p s (w.beside told) =
      ((env.run p s w).1, (env.run p s w).2.1,
        (env.run p s w).2.2.beside (told ++ env.news p s w)) := by
  induction p generalizing s w told with
  | done r => simp [run, news]
  | act a resume ih =>
    simp only [run, perform_recorded, news]
    obtain ⟨ending, t, v⟩ := env.perform a s w
    cases ending with
    | result reply =>
      rw [← List.append_assoc]
      exact ih reply t v (told ++ env.notices a s w.peers)
    | cut | stuck | crash => simp

theorem news_perform (a : Action β) (s : RunState) (w : World ε) :
    env.news (Program.perform a) s w = env.notices a s w.peers := by
  simp only [Program.perform, news]
  split <;> simp

theorem news_bind {γ : Type} (p : Program β α) (f : α → Program β γ) (s : RunState) (w : World ε) :
    env.news (p >>= f) s w =
      env.news p s w ++
        match env.run p s w with
        | (.result (.ok a), t, v) => env.news (f a) t v
        | _ => [] := by
  change env.news (p.bind f) s w = _
  induction p generalizing s w with
  | done r => cases r <;> simp [Program.bind, news, run]
  | act a resume ih =>
    simp only [Program.bind, news, run, List.append_assoc]
    obtain ⟨ending, t, v⟩ := env.perform a s w
    cases ending with
    | result reply => exact congrArg (env.notices a s w.peers ++ ·) (ih reply t v)
    | cut | stuck | crash => simp

theorem news_crash (s : RunState) (w : World ε) :
    env.news (Program.crash : Program β α) s w = [] := by
  rw [Program.crash, news_bind, news_perform, run_perform]
  simp [notices, perform]

theorem news_closing (previous : Nat) (p : Program β α) (s : RunState) (w : World ε) :
    env.news (p.closing previous) s w = env.news p s w := by
  induction p generalizing s w with
  | done r => simp [Program.closing, news, perform, notices]
  | act a resume ih =>
    simp only [Program.closing, news]
    obtain ⟨ending, t, v⟩ := env.perform a s w
    cases ending with
    | result reply => exact congrArg (env.notices a s w.peers ++ ·) (ih reply t v)
    | cut | stuck | crash => rfl

/-- Opening and closing a scope is nobody else's business. -/
theorem news_inScope (p : Program β α) (s : RunState) (w : World ε) :
    env.news p.inScope s w = env.news p { s with scopes := s.scopes.openScope } w := by
  rw [Program.inScope, news_bind, news_perform, run_perform]
  simp only [perform, notices, ite_self, List.nil_append]
  exact env.news_closing s.scopes.current p { s with scopes := s.scopes.openScope } w

end Environment

namespace Notice

/-- What can be told while the root chain is evaluated. -/
def During : Notice β → Prop
  | .stopped reason _ _ => reason ≠ .finish
  | .finished _ => False
  | .called _ _ => True
  | .spawned _ _ => True

end Notice

theorem Environment.notices_during (env : Environment β ε) {a : Action β} (plain : a.Plain)
    {s : RunState} {e : ε} : ∀ n ∈ env.notices a s e, n.During := by
  intro n hn
  unfold notices at hn
  split at hn
  · simp at hn
  · cases a with
    | stop reason block =>
      simp only [List.mem_ite_nil_right, List.mem_singleton] at hn
      exact hn.2 ▸ plain
    | call service args =>
      rw [List.mem_singleton] at hn
      exact hn ▸ trivial
    | spawn name presets =>
      rw [List.mem_singleton] at hn
      exact hn ▸ trivial
    | _ => simp at hn

theorem Program.Orderly.during {p : Program β α} (h : p.Orderly) {env : Environment β ε}
    {s : RunState} {w : World ε} : ∀ n ∈ env.news p s w, n.During := by
  induction h generalizing s w with
  | done r => simp [Environment.news]
  | act a plain =>
    rw [Environment.news_perform]
    exact env.notices_during plain
  | bind first rest ihf ihr =>
    intro n hn
    rw [Environment.news_bind, List.mem_append] at hn
    obtain one | two := hn
    · exact ihf n one
    · split at two
      · exact ihr _ n two
      · simp at two
  | inScope body ih =>
    rw [Environment.news_inScope]
    exact ih

namespace Script

variable (script : Script β) (env : Environment β ε)

theorem interceptFinish_recorded {d : Debugger β ε} (watched : env.debugger = some d)
    (s : RunState) (w : World ε) (told : List (Notice β)) :
    script.interceptFinish env.recorded s (w.beside told) =
      (script.interceptFinish env s w).map fun x =>
        (x.1, x.2.beside (told ++ [.stopped .finish script.root s.scopes])) := by
  have watched' := env.recorded_debugger watched
  have step := env.await_recorded false (d.intercept .finish script.root s.scopes w.peers).1
    { w with peers := (d.intercept .finish script.root s.scopes w.peers).2 }
    (told ++ [.stopped .finish script.root s.scopes])
  rw [interceptFinish_eq_arrived script env.recorded watched',
    interceptFinish_eq_arrived script env watched]
  refine (congrArg arrived step).trans ?_
  obtain ⟨ending, v⟩ := env.await false (d.intercept .finish script.root s.scopes w.peers).1
    { w with peers := (d.intercept .finish script.root s.scopes w.peers).2 }
  cases ending <;> rfl

theorem leave_recorded {d : Debugger β ε} (watched : env.debugger = some d)
    (evaluated : Except ScriptError Value) (s : RunState) (finish : Except ScriptError Unit)
    (w : World ε) (told : List (Notice β)) :
    leave env.recorded evaluated s finish (w.beside told) =
      ((leave env evaluated s finish w).1, (leave env evaluated s finish w).2.beside
        (told ++ [.finished (leave env evaluated s finish w).1.error])) := by
  have watched' := env.recorded_debugger watched
  simp only [leave, notifyFinished, watched, watched']
  cases outcomeOf evaluated finish <;> rfl

variable [Behavior β]

theorem evaluateRoot_recorded (s : RunState) (w : World ε) (told : List (Notice β)) :
    script.evaluateRoot env.recorded s (w.beside told) =
      (script.evaluateRoot env s w).map fun x =>
        (x.1, x.2.1, x.2.2.beside (told ++ env.news script.root.program s (script.limited w))) := by
  have h := env.run_recorded script.root.program s (script.limited w) told
  rw [evaluateRoot_eq_conclude, evaluateRoot_eq_conclude]
  refine (congrArg script.conclude h).trans ?_
  obtain ⟨ending, t, u⟩ := env.run script.root.program s (script.limited w)
  cases ending <;> rfl

/-- A watched run that ends, recorded: what was told during the evaluation of the root chain, then
the last interception, for the first block, and then once that the run is over. -/
theorem run_recorded {d : Debugger β ε} (watched : env.debugger = some d) {w w' : World ε}
    {r : Run} (ended : script.run env w = some (r, w')) (told : List (Notice β)) :
    ∃ evaluated s v,
      script.evaluateRoot env (script.initial env w) w = some (evaluated, s, v) ∧
      script.run env.recorded (w.beside told) = some (r, w'.beside
        (told ++ env.news script.root.program (script.initial env w) (script.limited w) ++
          [.stopped .finish script.root s.scopes, .finished r.error])) := by
  obtain ⟨evaluated, s, v, finish, u, root, last, left⟩ := run_parts ended
  have root' := script.evaluateRoot_recorded env (script.initial env w) w told
  rw [root, Option.map_some] at root'
  generalize env.news script.root.program (script.initial env w) (script.limited w) = news
    at root' ⊢
  have last' := script.interceptFinish_recorded env watched s v (told ++ news)
  rw [last, Option.map_some] at last'
  refine ⟨evaluated, s, v, root, ?_⟩
  rw [run_eq]
  refine (congrArg (Option.bind · _) root').trans ?_
  refine (congrArg (Option.map _) last').trans ?_
  have closed := leave_recorded env watched evaluated s finish u
    (told ++ news ++ [.stopped .finish script.root s.scopes])
  rw [left] at closed
  simp only [List.append_assoc, List.singleton_append] at closed ⊢
  exact congrArg some closed

/-- What a run tells once its root chain is done: of the last interception, and that it is over.
Without a debugger there is nobody to tell. -/
def lastNews (scopes : Scopes) (error : Option ScriptError) : List (Notice β) :=
  if env.debugger.isSome then [.stopped .finish script.root scopes, .finished error] else []

/-- A run that ends, recorded, whether it is watched or not. -/
theorem run_tells {w w' : World ε} {r : Run} (ended : script.run env w = some (r, w'))
    (told : List (Notice β)) :
    ∃ evaluated s v,
      script.evaluateRoot env (script.initial env w) w = some (evaluated, s, v) ∧
      script.run env.recorded (w.beside told) = some (r, w'.beside
        (told ++ env.news script.root.program (script.initial env w) (script.limited w) ++
          script.lastNews env s.scopes r.error)) := by
  cases hd : env.debugger with
  | some d =>
    obtain ⟨evaluated, s, v, root, recorded⟩ := script.run_recorded env hd ended told
    exact ⟨evaluated, s, v, root, by simpa [lastNews, hd] using recorded⟩
  | none =>
    obtain ⟨evaluated, s, v, finish, u, root, last, left⟩ := run_parts ended
    have root' := script.evaluateRoot_recorded env (script.initial env w) w told
    rw [root, Option.map_some] at root'
    generalize env.news script.root.program (script.initial env w) (script.limited w) = news
      at root' ⊢
    have unwatched : env.recorded.debugger = none := by simp [Environment.recorded, hd]
    simp only [interceptFinish, hd, Option.some.injEq, Prod.mk.injEq] at last
    obtain ⟨rfl, rfl⟩ := last
    refine ⟨evaluated, s, v, root, ?_⟩
    rw [run_eq]
    refine (congrArg (Option.bind · _) root').trans ?_
    simp only [leave, notifyFinished, hd, Prod.mk.injEq] at left
    obtain ⟨rfl, rfl⟩ := left
    simp only [Option.bind_some, interceptFinish, unwatched, Option.map_some, leave, notifyFinished,
      lastNews, hd, Option.isSome_none, Bool.false_eq_true, ↓reduceIte, List.append_nil]
    rfl

end Script

end

end BlockScript
