import BlockScript.Proofs.Recording
import BlockScript.Proofs.ScopeAgreement
import BlockScript.Proofs.Transparency
/-!
Variables that no block of a script mentions do not interfere with its runs.

Two runs whose root scopes hold the same under the mentioned names stay in step: every action
comes to the same and leaves the scopes in agreement. So they end alike, tell and ask the same, and
leave the unmentioned variables as they were.
-/

namespace BlockScript

open Time (Timestamp)

variable {β ε α : Type}

/-- The names in the variable fields of a tree. -/
def Block.Mentions (b : Block β) (name : String) : Prop :=
  ∃ c, b.Contains c ∧ Kinds.variableName c.header = .ok name

/-- A tree mentions what its first block refers to and what its parts mention. -/
theorem Block.mentions_mk_iff {h : Header β} {inputs : List (String × Block β)}
    {next : Option (Block β)} {name : String} :
    (Block.mk h inputs next).Mentions name ↔ Kinds.variableName h = .ok name ∨
      (∃ slot b, Entries.value? slot inputs = some b ∧ b.Mentions name) ∨
      ∃ b, next = some b ∧ b.Mentions name := by
  constructor
  · rintro ⟨c, inside, named⟩
    cases inside with
    | self => exact .inl named
    | @input _ b _ slot plugged inner => exact .inr (.inl ⟨slot, b, plugged, c, inner, named⟩)
    | @next _ b _ follows later => exact .inr (.inr ⟨b, follows, c, later, named⟩)
  · rintro (named | ⟨slot, b, plugged, c, inner, named⟩ | ⟨b, follows, c, later, named⟩)
    · exact ⟨_, .self _, named⟩
    · exact ⟨c, .input plugged inner, named⟩
    · exact ⟨c, .next follows later, named⟩

/-- A chain of standard blocks concerns no variables but those its tree mentions. -/
theorem Block.program_confined (b : Block Stock) :
    b.program.All (Action.Confined b.Mentions) := by
  have c : Program.Compositional (fun _ (p : Program Stock _) => p.All (Action.Confined b.Mentions))
      (Action.Confined b.Mentions) := Program.compositional_all trivial fun _ => trivial
  exact b.program_holds c (fun _ => c.enter trivial trivial)
    (fun b => c.act (.stop .leave b) trivial)
    (fun _ _ _ _ _ => c.spawnChild trivial trivial fun id => .inr ⟨id, rfl⟩)
    fun d inside _ performs =>
      (Stock.performs_own performs).2.mono fun _ named => ⟨d, inside, named⟩

/-- A debugger that sees no variables but those of some names. -/
def Debugger.Blind (names : String → Prop) (d : Debugger β ε) : Prop :=
  ∀ reason block s t e, Scopes.Alike names s t →
    d.intercept reason block t e = d.intercept reason block s e

/-- The same surroundings, but the site presets other variables. -/
def Environment.withPresets (env : Environment β ε) (presets : Bindings) : Environment β ε :=
  { env with site := { env.site with presets } }

/-- The same world at another date. -/
def World.dated (w : World ε) (origin : Timestamp) : World ε :=
  { w with origin }

/-- The same notices, but for the variables that a debugger is shown under other names. -/
inductive Notice.Alike (names : String → Prop) : Notice β → Notice β → Prop
  | stopped (reason : StopReason) (block : Block β) {s t : Scopes} (scopes : s.Alike names t) :
      Alike names (.stopped reason block s) (.stopped reason block t)
  | same (n : Notice β) : Alike names n n

/-- States of two runs that differ in the variables of other names and in their dates at most. -/
structure RunState.Alike (names : String → Prop) (s t : RunState) : Prop where
  scopes : s.scopes.Alike names t.scopes
  settled : t.settled = s.settled
  log : s.log.SameButTimes t.log

/-- Runs that came to the same and left the same under some names; the records may differ in their
times. -/
structure Run.AlikeOn (names : String → Prop) (r q : Run) : Prop where
  result : q.result = r.result
  log : r.log.SameButTimes q.log
  globals : ∀ name, names name → Entries.value? name q.globals = Entries.value? name r.globals

/-- Two programs that came to the same end, in states and worlds that are alike. -/
structure InTune (names : String → Prop) (origin : Timestamp)
    (x y : Ending α × RunState × World ε) : Prop where
  ending : y.1 = x.1
  state : x.2.1.Alike names y.2.1
  world : y.2.2 = x.2.2.dated origin

/-! No collaborator knows what date it is. -/

namespace Environment

variable (env : Environment β ε) (w : World ε) (origin : Timestamp)

theorem await_dated (raced : Bool) (a : Answer ε α) :
    env.await raced a (w.dated origin) =
      ((env.await raced a w).1, (env.await raced a w).2.dated origin) := by
  have mirrors : env.Mirrors id env := ⟨fun _ => rfl, fun _ => rfl, fun _ => rfl⟩
  have answers : a.Mirrors id a := by
    cases a with
    | now r => rfl
    | later ms r => exact ⟨rfl, rfl⟩
    | once ready =>
      intro e
      simp
  exact mirrors.await (fun _ => origin) answers raced w

theorem race_dated (ask : ε → Answer ε α × ε) :
    env.race ask (w.dated origin) = ((env.race ask w).1, (env.race ask w).2.dated origin) := by
  have signal : env.aborted (w.dated origin).peers = env.aborted w.peers := rfl
  simp only [race, signal]
  split
  · rfl
  · exact env.await_dated { w with peers := (ask w.peers).2 } origin true (ask w.peers).1

end Environment

namespace Environment

variable {env : Environment β ε} {names : String → Prop}
  (blind : ∀ d, env.debugger = some d → d.Blind names) (origin : Timestamp)
include blind

/-- Whoever is asked the same in two worlds of different dates answers the same. -/
theorem perform_alike {a : Action β} (confined : a.Confined names) {s t : RunState}
    (alike : s.Alike names t) (w : World ε) :
    InTune names origin (env.perform a s w) (env.perform a t (w.dated origin)) := by
  have replied {γ : Type} {x y : γ} (eq : y = x) :
      (Ending.result (.ok y) : Ending γ) = .result (.ok x) := by rw [eq]
  cases a with
  | checkAbort | reserve | crash => exact ⟨rfl, alike, rfl⟩
  | stop reason block =>
    cases watched : env.debugger with
    | none =>
      simp only [perform, watched]
      exact ⟨rfl, alike, rfl⟩
    | some d =>
      have shown : d.intercept reason block t.scopes = d.intercept reason block s.scopes :=
        funext fun e => blind d watched reason block s.scopes t.scopes e alike.scopes
      simp only [perform, watched, shown, race_dated]
      exact ⟨rfl, alike, rfl⟩
  | lookup name => exact ⟨replied (alike.scopes.get_eq confined), alike, rfl⟩
  | assign name value =>
    exact ⟨rfl, ⟨alike.scopes.set confined value, alike.settled, alike.log⟩, rfl⟩
  | assignGlobal name value =>
    exact ⟨rfl, ⟨alike.scopes.setGlobal confined value, alike.settled, alike.log⟩, rfl⟩
  | openScope =>
    refine ⟨replied alike.scopes.current, ?_, rfl⟩
    refine ⟨?_, alike.settled, alike.log⟩
    simp only [perform, Scopes.openScope, alike.scopes.current]
    exact alike.scopes.openUnder _
  | openRootScope =>
    exact ⟨replied alike.scopes.current,
      ⟨alike.scopes.openUnder 0, alike.settled, alike.log⟩, rfl⟩
  | closeScope previous =>
    exact ⟨rfl, ⟨alike.scopes.closeScope previous, alike.settled, alike.log⟩, rfl⟩
  | attach m =>
    obtain ⟨reply, log⟩ := LogRecord.steady_sameButTimes m s.log t.log confined alike.log
    refine ⟨?_, ⟨alike.scopes, alike.settled, log⟩, rfl⟩
    exact congrArg (fun r => Ending.result (r.mapError ScriptError.modifier)) reply
  | call service args =>
    simp only [perform, race_dated]
    exact ⟨rfl, alike, rfl⟩
  | spawn name presets =>
    simp only [perform, race_dated]
    obtain ⟨ending, u⟩ := env.race (env.site.spawn name presets) w
    cases ending with
    | result r =>
      cases r with
      | ok child => exact ⟨rfl, ⟨alike.scopes, by rw [alike.settled], alike.log⟩, rfl⟩
      | error e => exact ⟨rfl, alike, rfl⟩
    | cut | stuck | crash => exact ⟨rfl, alike, rfl⟩
  | wait ms =>
    simp only [perform, race_dated]
    exact ⟨rfl, alike, rfl⟩
  | sleep ms =>
    simp only [perform, await_dated]
    exact ⟨rfl, alike, rfl⟩
  | scopeDepth => exact ⟨replied alike.scopes.length_eq, alike, rfl⟩
  | readLog => cases confined

omit blind in
theorem notices_alike (a : Action β) {s t : RunState} (alike : s.Alike names t) (e : ε) :
    List.Forall₂ (Notice.Alike names) (env.notices a s e) (env.notices a t e) := by
  have same (ns : List (Notice β)) : List.Forall₂ (Notice.Alike names) ns ns :=
    List.forall₂_same.mpr fun n _ => .same n
  unfold notices
  split
  · exact .nil
  · cases a with
    | stop reason block =>
      simp only
      split
      · exact .cons (.stopped reason block alike.scopes) .nil
      · exact .nil
    | _ => exact same _

/-- Programs confined to some names stay in tune, and give the same to take down. -/
theorem run_alike {p : Program β α} (confined : p.All (Action.Confined names)) {s t : RunState}
    (alike : s.Alike names t) (w : World ε) :
    InTune names origin (env.run p s w) (env.run p t (w.dated origin)) ∧
      List.Forall₂ (Notice.Alike names) (env.news p s w) (env.news p t (w.dated origin)) := by
  induction p generalizing s t w with
  | done r => exact ⟨⟨rfl, alike, rfl⟩, .nil⟩
  | act a resume ih =>
    obtain ⟨now, later⟩ := confined
    have step := perform_alike blind origin now alike w
    have told := env.notices_alike a alike w.peers
    have peers : (w.dated origin).peers = w.peers := rfl
    simp only [run, news, peers]
    generalize env.perform a s w = x at step ⊢
    generalize env.perform a t (w.dated origin) = y at step ⊢
    obtain ⟨ending, s', w'⟩ := x
    obtain ⟨ending', t', v'⟩ := y
    obtain ⟨eq, alike, world⟩ := step
    cases eq
    cases world
    cases ending with
    | result reply =>
      obtain ⟨tune, rest⟩ := ih reply (later reply) alike w'
      exact ⟨tune, List.rel_append told rest⟩
    | cut | stuck | crash => exact ⟨⟨rfl, alike, rfl⟩, List.rel_append told .nil⟩

end Environment

namespace Environment

variable (env : Environment β ε)

/-- A variable of another name keeps what it has in the root. -/
theorem perform_keeps_global {names : String → Prop} {a : Action β} (confined : a.Confined names)
    {name : String} (other : ¬names name) (s : RunState) (w : World ε) :
    Entries.value? name (env.perform a s w).2.1.scopes.globals =
      Entries.value? name s.scopes.globals := by
  have ne {mentioned : String} (mem : names mentioned) : name ≠ mentioned := by
    rintro rfl
    exact other mem
  cases a with
  | assign mentioned value => exact s.scopes.value?_set_of_ne (ne confined) value
  | assignGlobal mentioned value => exact s.scopes.value?_setGlobal_of_ne (ne confined) value
  | openScope | openRootScope =>
    simp only [perform, Scopes.openScope, Scopes.globals_openUnder]
  | closeScope previous => simp only [perform, Scopes.globals_closeScope]
  | stop reason block =>
    simp only [perform]
    split <;> rfl
  | spawn name presets =>
    simp only [perform]
    split <;> rfl
  | checkAbort | lookup | attach | call | wait | sleep | scopeDepth | readLog | reserve | crash =>
    rfl

theorem news_withPresets (presets : Bindings) (p : Program β α) (s : RunState) (w : World ε) :
    (env.withPresets presets).news p s w = env.news p s w := by
  have step (a : Action β) (s : RunState) (w : World ε) :
      (env.withPresets presets).perform a s w = env.perform a s w := by
    cases a <;> rfl
  have same (a : Action β) (s : RunState) (e : ε) :
      (env.withPresets presets).notices a s e = env.notices a s e := rfl
  induction p generalizing s w with
  | done r => rfl
  | act a resume ih =>
    simp only [news, step, same]
    obtain ⟨ending, s', w'⟩ := env.perform a s w
    cases ending with
    | result reply => exact congrArg (env.notices a s w.peers ++ ·) (ih reply s' w')
    | cut | stuck | crash => rfl

end Environment

namespace Script

variable {script : Script Stock} {env : Environment Stock ε} {names : String → Prop}
  (blind : ∀ d, env.debugger = some d → d.Blind names) (origin : Timestamp)
include blind

/-- The evaluation of the root chain stays in tune. -/
theorem evaluateRoot_alike (confined : script.root.program.All (Action.Confined names))
    {s t : RunState} (alike : s.Alike names t) (w : World ε) :
    Option.Rel
      (fun x y => y.1 = x.1 ∧ x.2.1.Alike names y.2.1 ∧ y.2.2 = x.2.2.dated origin)
      (script.evaluateRoot env s w) (script.evaluateRoot env t (w.dated origin)) := by
  obtain ⟨tune, -⟩ := Environment.run_alike blind origin confined alike (script.limited w)
  have limited : script.limited (w.dated origin) = (script.limited w).dated origin := rfl
  rw [evaluateRoot_eq_conclude, evaluateRoot_eq_conclude, limited]
  generalize env.run script.root.program s (script.limited w) = x at tune ⊢
  generalize env.run script.root.program t ((script.limited w).dated origin) = y at tune ⊢
  obtain ⟨ending, s', w'⟩ := x
  obtain ⟨ending', t', v'⟩ := y
  obtain ⟨eq, alike, world⟩ := tune
  cases eq
  cases world
  cases ending with
  | result r => exact .some ⟨rfl, alike, rfl⟩
  | cut => exact .some ⟨rfl, ⟨alike.scopes.unwind, alike.settled, alike.log⟩, rfl⟩
  | stuck | crash => exact .none

theorem interceptFinish_alike {s t : RunState} (alike : s.Alike names t) (w : World ε) :
    script.interceptFinish env t (w.dated origin) =
      (script.interceptFinish env s w).map fun x => (x.1, x.2.dated origin) := by
  cases watched : env.debugger with
  | none => simp [interceptFinish, watched]
  | some d =>
    have shown := blind d watched .finish script.root s.scopes t.scopes w.peers alike.scopes
    have peers : (w.dated origin).peers = w.peers := rfl
    rw [interceptFinish_eq_arrived script env watched,
      interceptFinish_eq_arrived script env watched, peers, shown]
    refine (congrArg arrived (env.await_dated { w with peers := _ } origin false _)).trans ?_
    obtain ⟨ending, u⟩ := env.await false (d.intercept .finish script.root s.scopes w.peers).1
      { w with peers := (d.intercept .finish script.root s.scopes w.peers).2 }
    cases ending <;> rfl

omit blind in
theorem initial_alike (script : Script Stock) {presets : Bindings}
    (agree : ∀ name, names name →
      Entries.value? name presets = Entries.value? name env.site.presets) (w : World ε) :
    (script.initial env w).Alike names
      (script.initial (env.withPresets presets) (w.dated origin)) :=
  ⟨Scopes.alike_ofBindings agree, rfl, LogRecord.sameButTimes_start _ _ _ _ _⟩

omit blind in
theorem leave_dated {s t : RunState} (alike : s.Alike names t)
    (evaluated : Except ScriptError Value) (finish : Except ScriptError Unit) (w : World ε) :
    let x := leave env evaluated s finish w
    let y := leave env evaluated t finish (w.dated origin)
    x.1.AlikeOn names y.1 ∧ y.2 = x.2.dated origin := by
  simp only [leave]
  refine ⟨⟨rfl, sameButTimes_closeLog alike.settled alike.log _ _ _, ?_⟩, ?_⟩
  · intro name mem
    exact alike.scopes.value?_eq 0 mem
  · unfold notifyFinished
    split <;> rfl

omit blind in
theorem evaluateRoot_withPresets (presets : Bindings) (s : RunState) (w : World ε) :
    script.evaluateRoot (env.withPresets presets) s w = script.evaluateRoot env s w :=
  congrArg script.conclude (env.run_presets presets script.root.program s (script.limited w))

omit blind in
/-- A variable that is not mentioned keeps what the site preset. -/
theorem run_keeps_global {w w' : World ε} {r : Run} (ended : script.run env w = some (r, w'))
    {name : String} (other : ¬script.root.Mentions name) :
    Entries.value? name r.globals = Entries.value? name env.site.presets := by
  obtain ⟨evaluated, s, v, finish, u, root, -, left⟩ := run_parts ended
  have kept := script.root.program_confined.run_keeps
    (Q := fun s => Entries.value? name s.scopes.globals = Entries.value? name env.site.presets)
    (fun a s w confined held => (env.perform_keeps_global confined other s w).trans held)
    (s := script.initial env w) rfl (script.limited w)
  have globals : r.globals = s.scopes.globals := by
    rw [← (Prod.mk.inj left).1]
  rw [globals]
  obtain ⟨u, ran⟩ | ⟨t, u, ran, -, rfl⟩ := evaluateRoot_ran root
  · rw [ran] at kept
    exact kept
  · rw [ran] at kept
    rw [Scopes.globals_unwind]
    exact kept

variable (confined : script.root.program.All (Action.Confined names)) {presets : Bindings}
  (agree : ∀ name, names name →
    Entries.value? name presets = Entries.value? name env.site.presets)
include confined agree

/-- Two runs over presets that agree on some names: neither comes back, or both end. -/
theorem run_withPresets (w : World ε) :
    Option.Rel (fun x y => x.1.AlikeOn names y.1 ∧ y.2 = x.2.dated origin) (script.run env w)
      (script.run (env.withPresets presets) (w.dated origin)) := by
  have start := script.initial_alike origin agree w
  have root := evaluateRoot_alike blind origin confined start w
  rw [run_eq, run_eq, evaluateRoot_withPresets]
  generalize script.evaluateRoot env (script.initial env w) w = x at root ⊢
  generalize script.evaluateRoot env (script.initial (env.withPresets presets) (w.dated origin))
    (w.dated origin) = y at root ⊢
  cases root with
  | none => exact .none
  | @some x y rel =>
    obtain ⟨evaluated, s, v⟩ := x
    obtain ⟨evaluated', t, v'⟩ := y
    obtain ⟨eq, alike, world⟩ := rel
    dsimp only at eq alike world
    subst eq world
    have last : script.interceptFinish (env.withPresets presets) t (v.dated origin) = _ :=
      interceptFinish_alike blind origin alike v
    simp only [Option.bind_some, last]
    cases script.interceptFinish env s v with
    | none => exact .none
    | some z =>
      refine .some ?_
      exact leave_dated origin alike _ z.1 z.2

/-- If one of two such runs crashes, so does the other. -/
theorem crashes_withPresets (w : World ε) :
    script.crashes (env.withPresets presets) (w.dated origin) = script.crashes env w := by
  have start := script.initial_alike origin agree w
  obtain ⟨tune, -⟩ := Environment.run_alike blind origin confined start (script.limited w)
  have limited : script.limited (w.dated origin) = (script.limited w).dated origin := rfl
  have ran : (env.withPresets presets).run script.root.program _ _ = _ :=
    env.run_presets presets script.root.program
      (script.initial (env.withPresets presets) (w.dated origin)) (script.limited (w.dated origin))
  rw [crashes, crashes, crashesFrom, crashesFrom, ran, limited, tune.ending]

/-- What two such runs tell and ask is the same, but for the variables that a debugger is shown. -/
theorem told_withPresets {w w' : World ε} {run run' : Run}
    (ended : script.run env w = some (run, w'))
    (ended' : script.run (env.withPresets presets) (w.dated origin) =
      some (run', w'.dated origin)) (same : run'.error = run.error) :
    ∃ told told',
      script.run env.recorded (w.beside []) = some (run, w'.beside told) ∧
      script.run (env.withPresets presets).recorded ((w.dated origin).beside []) =
        some (run', (w'.dated origin).beside told') ∧
      List.Forall₂ (Notice.Alike names) told told' := by
  obtain ⟨evaluated, s, v, root, recorded⟩ := script.run_tells env ended []
  obtain ⟨evaluated', t, v', root', recorded'⟩ :=
    script.run_tells (env.withPresets presets) ended' []
  refine ⟨_, _, recorded, recorded', ?_⟩
  have start := script.initial_alike origin agree w
  have rel := evaluateRoot_alike blind origin confined start w
  rw [evaluateRoot_withPresets] at root'
  rw [root, root'] at rel
  have last : List.Forall₂ (Notice.Alike names) (script.lastNews env s.scopes run.error)
      (script.lastNews (env.withPresets presets) t.scopes run'.error) := by
    cases rel with
    | some rel =>
      have watched : (env.withPresets presets).debugger = env.debugger := rfl
      rw [same, lastNews, lastNews, watched]
      split
      · exact .cons (.stopped .finish script.root rel.2.1.scopes) (.cons (.same _) .nil)
      · exact .nil
  rw [Environment.news_withPresets]
  have during := (Environment.run_alike blind origin confined start (script.limited w)).2
  exact List.rel_append during last

end Script

/-- Two runs of a script, under a debugger that sees no variables but the mentioned ones, on presets
that agree on every mentioned name, and at different times if need be. Both wait for ever, or both
crash, or both end with the same value or error, the same record but for its times, and the same
notices and requests. They leave the same under every mentioned name, and what was preset under every
other. -/
theorem unmentioned_variables_do_not_interfere {ε : Type} (script : Script Stock)
    (env : Environment Stock ε) (presets : Bindings) (origin : Timestamp) (w : World ε)
    (agree : ∀ name, script.root.Mentions name →
      Entries.value? name presets = Entries.value? name env.site.presets)
    (blind : ∀ d, env.debugger = some d → d.Blind script.root.Mentions) :
    (script.run env w = none ∧
      script.run (env.withPresets presets) (w.dated origin) = none ∧
      script.crashes (env.withPresets presets) (w.dated origin) = script.crashes env w) ∨
    ∃ run run' w' told told',
      script.run env w = some (run, w') ∧
      script.run (env.withPresets presets) (w.dated origin) = some (run', w'.dated origin) ∧
      run.AlikeOn script.root.Mentions run' ∧
      script.run env.recorded (w.beside []) = some (run, w'.beside told) ∧
      script.run (env.withPresets presets).recorded ((w.dated origin).beside []) =
        some (run', (w'.dated origin).beside told') ∧
      List.Forall₂ (Notice.Alike script.root.Mentions) told told' ∧
      ∀ name, ¬script.root.Mentions name →
        Entries.value? name run.globals = Entries.value? name env.site.presets ∧
        Entries.value? name run'.globals = Entries.value? name presets := by
  have confined := script.root.program_confined
  have rel := Script.run_withPresets blind origin confined agree w
  cases ended : script.run env w with
  | none =>
    rw [ended] at rel
    cases ended' : script.run (env.withPresets presets) (w.dated origin) with
    | none => exact .inl ⟨rfl, rfl, Script.crashes_withPresets blind origin confined agree w⟩
    | some y =>
      rw [ended'] at rel
      cases rel
  | some x =>
    rw [ended] at rel
    cases ended' : script.run (env.withPresets presets) (w.dated origin) with
    | none =>
      rw [ended'] at rel
      cases rel
    | some y =>
      rw [ended'] at rel
      obtain ⟨run, w'⟩ := x
      obtain ⟨run', v'⟩ := y
      cases rel with
      | some rel =>
        obtain ⟨alike, world⟩ := rel
        dsimp only at alike world
        subst world
        have error : run'.error = run.error := by
          rw [Run.error, Run.error, alike.result]
        obtain ⟨told, told', recorded, recorded', notices⟩ :=
          Script.told_withPresets blind origin confined agree ended ended' error
        exact .inr ⟨run, run', w', told, told', rfl, rfl, alike, recorded, recorded', notices,
          fun name other => ⟨Script.run_keeps_global ended other,
            Script.run_keeps_global ended' other⟩⟩

/-- A script that assigns one variable and reads it back, with another preset in one run only. -/
theorem secret_changes_nothing :
    let literal : Block Stock := .mk ⟨"text", none, .text, [("TEXT", .string "b")], []⟩ [] none
    let reads : Block Stock :=
      .mk ⟨"variables_get", none, .getVariable, [("VAR", .string "x")], []⟩ [] none
    let script : Script Stock :=
      ⟨.mk ⟨"variables_set", none, .setVariable, [("VAR", .string "x")], []⟩ [("VALUE", literal)]
        reads, {}⟩
    let env : Environment Stock Unit :=
      { site := .bare [("secret", .string "s"), ("x", .string "a")]
        debugger := some
          { intercept := fun _ _ _ e => (.now (.ok ()), e), finished := fun _ e => e }
        aborted := fun _ => false
        abort := fun e => e
        react := fun e => e }
    let w : World Unit := { peers := (), origin := ⟨0, 0⟩ }
    ∃ run run' w',
      script.run env w = some (run, w') ∧
      script.run (env.withPresets [("x", .string "a")]) (w.dated ⟨1, 0⟩) =
        some (run', w'.dated ⟨1, 0⟩) ∧
      run.value = some (.string "b") ∧ run.AlikeOn script.root.Mentions run' ∧
      Entries.value? "secret" run.globals = some (.string "s") ∧
      Entries.value? "secret" run'.globals = none := by
  intro literal reads script env w
  have unmentioned : ¬script.root.Mentions "secret" := by
    simp [script, reads, literal, Block.mentions_mk_iff, Entries.value?_cons,
      Kinds.variableName, Header.field, bind, Except.bind]
  have agree (name : String) (mem : script.root.Mentions name) :
      Entries.value? name [("x", Value.string "a")] = Entries.value? name env.site.presets := by
    have ne : "secret" ≠ name := by
      rintro rfl
      exact unmentioned mem
    exact (if_neg ne).symm
  have blind (d : Debugger Stock Unit) (watched : env.debugger = some d) :
      d.Blind script.root.Mentions := by
    cases watched
    exact fun _ _ _ _ _ _ => rfl
  have value : (script.run env w).map (fun x => x.1.value) = some (some (.string "b")) := rfl
  obtain ⟨none, -⟩ | ⟨run, run', w', -, -, ended, ended', alike, -, -, -, kept⟩ :=
    unmentioned_variables_do_not_interfere script env [("x", .string "a")] ⟨1, 0⟩ w agree blind
  · rw [none] at value
    cases value
  · rw [ended] at value
    obtain ⟨secret, absent⟩ := kept "secret" unmentioned
    exact ⟨run, run', w', ended, ended', Option.some.inj value, alike, secret, absent⟩

end BlockScript
