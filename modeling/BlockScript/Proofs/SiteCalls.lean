import BlockScript.Proofs.Crashes
import BlockScript.Proofs.Events
import BlockScript.Proofs.Repetition
/-!
Calls of the site.

The arguments of a call are evaluated in the order of their numbers. When all of them have values
the service is called, once, with these values; the first that is not connected or has no value ends
the block, and the service is not called. Room for the arguments is made beforehand, for as many as
the block says there are: when it says too many, the engine crashes.
-/

namespace BlockScript

variable {ε : Type}

/-- No piece of memory holds so many values, whatever the site. -/
theorem Site.grants_eq_false (site : Site ε) {count : Nat} (many : 2 ^ 58 ≤ count) (e : ε) :
    site.grants count e = false := by
  have capacity : Site.capacity = 2 ^ 58 - 1 := rfl
  have excess : ¬count ≤ Site.capacity := by omega
  rw [Site.grants, decide_eq_false excess, Bool.false_and]

namespace Block

/-- What is left of a call when some of its arguments are there. -/
def callFrom (b : Block Stock) (service : String) (args : List Value) (left : Nat) :
    Program Stock Value :=
  Kinds.slotValues b.header (program.inputPrograms b.inputs) "ARG" left args.length >>= fun rest =>
    Program.callSite service (args ++ rest)

theorem callFrom_zero (b : Block Stock) (service : String) (args : List Value) :
    b.callFrom service args 0 = Program.callSite service args := by
  rw [callFrom, Kinds.slotValues, pure_bind, List.append_nil]

/-- The next argument joins those that are there. -/
theorem callFrom_succ (b : Block Stock) (service : String) (args : List Value) (left : Nat) :
    b.callFrom service args (left + 1) =
      Inputs.required (program.inputPrograms b.inputs) b.header s!"ARG{args.length}" >>= fun v =>
        b.callFrom service (args ++ [v]) left := by
  simp [callFrom, Kinds.slotValues, bind_assoc]

theorem own_of_siteCall {b : Block Stock} (call : b.header.behavior = .siteCall) {service : String}
    (named : b.header.fieldText "SERVICE" = .ok service) :
    b.own = Program.perform (.reserve (b.header.count "argCount")) >>= fun _ =>
      b.callFrom service [] (b.header.count "argCount") := by
  obtain ⟨h, inputs, next⟩ := b
  have kind : h.behavior = .siteCall := call
  have field : h.fieldText "SERVICE" = .ok service := named
  rw [own, kind]
  change Kinds.callBlock h (program.inputPrograms inputs) = _
  rw [Kinds.callBlock, field]
  rfl

/-- The first arguments are evaluated in order, and these are their values. The run goes from one
state to another; it enters the blocks listed, and what is listed happens. -/
inductive Gathers (env : Environment Stock ε) (b : Block Stock) (s : RunState) (w : World ε) :
    List Value → RunState → World ε → List (Arrival Stock ε) → List (Event Stock) → Prop
  | none : Gathers env b s w [] s w [] []
  | more {args : List Value} {t t' : RunState} {u u' : World ε} {entered : List (Arrival Stock ε)}
      {happened : List (Event Stock)} {c : Block Stock} {v : Value}
      (before : Gathers env b s w args t u entered happened)
      (plugged : b.input? s!"ARG{args.length}" = some c)
      (evaluated : env.run c.program t u = (.result (.ok v), t', u')) :
      Gathers env b s w (args ++ [v]) t' u' (entered ++ env.arrivals c.program t u)
        (happened ++ env.history c.program t u)

/-- How a call with a number of arguments ends, the blocks it enters and what happens meanwhile. -/
inductive Calls (env : Environment Stock ε) (b : Block Stock) (service : String) (count : Nat)
    (s : RunState) (w : World ε) :
    Ending Value × RunState × World ε → List (Arrival Stock ε) → List (Event Stock) → Prop
  /-- All arguments have values. The service is called with them, and that is the last that
  happens. -/
  | complete {args : List Value} {t : RunState} {u : World ε} {entered : List (Arrival Stock ε)}
      {happened : List (Event Stock)} (gathered : Gathers env b s w args t u entered happened)
      (all : args.length = count) :
      Calls env b service count s w (env.perform (.call service args) t u) entered
        (happened ++ [.told (.called service args)])
  /-- An argument is not connected, and the block fails naming it. -/
  | missing {args : List Value} {t : RunState} {u : World ε} {entered : List (Arrival Stock ε)}
      {happened : List (Event Stock)} (gathered : Gathers env b s w args t u entered happened)
      (there : args.length < count) (unplugged : b.input? s!"ARG{args.length}" = none) :
      Calls env b service count s w
        (.result (.error (.missingInput b.kind b.header.label s!"ARG{args.length}")), t, u) entered
        happened
  /-- An argument has no value, and the block ends as it does. -/
  | broken {args : List Value} {t t' : RunState} {u u' : World ε}
      {entered : List (Arrival Stock ε)} {happened : List (Event Stock)} {c : Block Stock}
      {ending : Ending Value} (gathered : Gathers env b s w args t u entered happened)
      (there : args.length < count) (plugged : b.input? s!"ARG{args.length}" = some c)
      (evaluated : env.run c.program t u = (ending, t', u'))
      (valueless : ∀ v, ending ≠ .result (.ok v)) :
      Calls env b service count s w (ending, t', u') (entered ++ env.arrivals c.program t u)
        (happened ++ env.history c.program t u)

section Steps

variable {env : Environment Stock ε} {b c : Block Stock} {service : String} {s t t' : RunState}
  {w u u' : World ε} {args : List Value} {v : Value} {entered : List (Arrival Stock ε)}
  {happened : List (Event Stock)}

/-- Once there is room for the arguments, the call begins. -/
theorem own_granted (call : b.header.behavior = .siteCall)
    (named : b.header.fieldText "SERVICE" = .ok service)
    (granted : env.site.grants (b.header.count "argCount") w.peers = true) :
    env.run b.own s w = env.run (b.callFrom service [] (b.header.count "argCount")) s w ∧
    env.arrivals b.own s w =
      env.arrivals (b.callFrom service [] (b.header.count "argCount")) s w ∧
    env.history b.own s w =
      env.history (b.callFrom service [] (b.header.count "argCount")) s w := by
  rw [own_of_siteCall call named, env.run_bind, env.arrivals_bind, env.history_bind,
    env.run_perform, env.arrivals_perform, env.history_perform]
  simp [Environment.perform, granted, Action.arrival, Environment.events, Environment.effects,
    Environment.notices]

/-- Without room for them, nothing begins. -/
theorem own_refused (call : b.header.behavior = .siteCall)
    (named : b.header.fieldText "SERVICE" = .ok service)
    (refused : env.site.grants (b.header.count "argCount") w.peers = false) :
    env.run b.own s w = (.crash, s, w) ∧ env.arrivals b.own s w = [] ∧
      env.history b.own s w = [] := by
  rw [own_of_siteCall call named, env.run_bind, env.arrivals_bind, env.history_bind,
    env.run_perform, env.arrivals_perform, env.history_perform]
  simp [Environment.perform, refused, Action.arrival, Environment.events, Environment.effects,
    Environment.notices]

theorem call_made (unattended : env.Unattended) (b : Block Stock) (service : String)
    (args : List Value) (t : RunState) (u : World ε) :
    env.run (b.callFrom service args 0) t u = env.perform (.call service args) t u ∧
    env.arrivals (b.callFrom service args 0) t u = [] ∧
    env.history (b.callFrom service args 0) t u = [.told (.called service args)] := by
  rw [callFrom_zero, Program.callSite, env.run_bind, env.arrivals_bind, env.history_bind,
    unattended.run_checkAbort]
  simp [env.run_perform, env.arrivals_perform, env.history_perform, Action.arrival,
    Environment.events, Environment.effects, Environment.notices, unattended.quiet]

theorem argument_gathered (service : String) (left : Nat)
    (plugged : b.input? s!"ARG{args.length}" = some c)
    (evaluated : env.run c.program t u = (.result (.ok v), t', u')) :
    env.run (b.callFrom service args (left + 1)) t u =
      env.run (b.callFrom service (args ++ [v]) left) t' u' ∧
    env.arrivals (b.callFrom service args (left + 1)) t u =
      env.arrivals c.program t u ++ env.arrivals (b.callFrom service (args ++ [v]) left) t' u' ∧
    env.history (b.callFrom service args (left + 1)) t u =
      env.history c.program t u ++ env.history (b.callFrom service (args ++ [v]) left) t' u' := by
  rw [callFrom_succ, required_of_plugged plugged, env.run_bind, env.arrivals_bind,
    env.history_bind, evaluated]
  exact ⟨rfl, rfl, rfl⟩

theorem argument_missing (service : String) (left : Nat)
    (unplugged : b.input? s!"ARG{args.length}" = none)
    (t : RunState) (u : World ε) :
    env.run (b.callFrom service args (left + 1)) t u =
      (.result (.error (.missingInput b.kind b.header.label s!"ARG{args.length}")), t, u) ∧
    env.arrivals (b.callFrom service args (left + 1)) t u = [] ∧
    env.history (b.callFrom service args (left + 1)) t u = [] := by
  rw [callFrom_succ, required_of_unplugged unplugged]
  exact ⟨rfl, rfl, rfl⟩

theorem argument_broken (service : String) (left : Nat) {ending : Ending Value}
    (plugged : b.input? s!"ARG{args.length}" = some c)
    (evaluated : env.run c.program t u = (ending, t', u'))
    (valueless : ∀ v, ending ≠ .result (.ok v)) :
    env.run (b.callFrom service args (left + 1)) t u = (ending, t', u') ∧
    env.arrivals (b.callFrom service args (left + 1)) t u = env.arrivals c.program t u ∧
    env.history (b.callFrom service args (left + 1)) t u = env.history c.program t u := by
  rw [callFrom_succ, required_of_plugged plugged, env.run_bind, env.arrivals_bind,
    env.history_bind, evaluated]
  cases ending with
  | result r =>
    cases r with
    | ok v => exact absurd rfl (valueless v)
    | error e => simp
  | cut | stuck | crash => simp

/-- Behind the arguments that are there, the rest of the call runs. -/
theorem Gathers.rest (gathered : Gathers env b s w args t u entered happened) (service : String)
    (left : Nat) :
    env.run (b.callFrom service [] (args.length + left)) s w =
      env.run (b.callFrom service args left) t u ∧
    env.arrivals (b.callFrom service [] (args.length + left)) s w =
      entered ++ env.arrivals (b.callFrom service args left) t u ∧
    env.history (b.callFrom service [] (args.length + left)) s w =
      happened ++ env.history (b.callFrom service args left) t u := by
  induction gathered generalizing left with
  | none => simp
  | @more args t t' u u' entered happened c v before plugged evaluated ih =>
    obtain ⟨runs, enters, happens⟩ := ih (left + 1)
    obtain ⟨ran, entered, happened⟩ := argument_gathered service left plugged evaluated
    have length : (args ++ [v]).length + left = args.length + (left + 1) := by
      rw [List.length_append, Nat.add_assoc, Nat.add_comm _ left]
      rfl
    rw [length, runs, enters, happens, ran, entered, happened, List.append_assoc, List.append_assoc]
    exact ⟨rfl, rfl, rfl⟩

/-- Whatever becomes of a call is what the block does. -/
theorem Calls.runs (unattended : env.Unattended) {count : Nat}
    {outcome : Ending Value × RunState × World ε}
    (calls : Calls env b service count s w outcome entered happened) :
    env.run (b.callFrom service [] count) s w = outcome ∧
    env.arrivals (b.callFrom service [] count) s w = entered ∧
    env.history (b.callFrom service [] count) s w = happened := by
  cases calls with
  | @complete args t u entered happened gathered all =>
    subst all
    obtain ⟨runs, enters, happens⟩ := gathered.rest service 0
    obtain ⟨ran, entered, happened⟩ := call_made unattended b service args t u
    rw [Nat.add_zero] at runs enters happens
    rw [runs, enters, happens, ran, entered, happened, List.append_nil]
    exact ⟨rfl, rfl, rfl⟩
  | @missing args t u entered happened gathered there unplugged =>
    obtain ⟨left, rfl⟩ := Nat.exists_eq_add_of_lt there
    obtain ⟨runs, enters, happens⟩ := gathered.rest service (left + 1)
    obtain ⟨ran, entered, happened⟩ := argument_missing service left unplugged t u
    rw [Nat.add_assoc, runs, enters, happens, ran, entered, happened, List.append_nil,
      List.append_nil]
    exact ⟨rfl, rfl, rfl⟩
  | @broken args t t' u u' entered happened c ending gathered there plugged evaluated valueless =>
    obtain ⟨left, rfl⟩ := Nat.exists_eq_add_of_lt there
    obtain ⟨runs, enters, happens⟩ := gathered.rest service (left + 1)
    obtain ⟨ran, entered, happened⟩ :=
      argument_broken service left plugged evaluated valueless
    rw [Nat.add_assoc, runs, enters, happens, ran, entered, happened]
    exact ⟨rfl, rfl, rfl⟩

/-- What is left of a call ends it in one of the three ways. -/
theorem Gathers.calls (unattended : env.Unattended)
    (gathered : Gathers env b s w args t u entered happened) (service : String) (left : Nat) :
    Calls env b service (args.length + left) s w (env.run (b.callFrom service args left) t u)
      (entered ++ env.arrivals (b.callFrom service args left) t u)
      (happened ++ env.history (b.callFrom service args left) t u) := by
  -- The arguments that are there are part of the induction: one more that has a value only adds to
  -- them.
  induction left generalizing args t u entered happened with
  | zero =>
    obtain ⟨ran, enters, happens⟩ := call_made unattended b service args t u
    rw [ran, enters, happens, List.append_nil]
    exact .complete gathered rfl
  | succ left ih =>
    have there : args.length < args.length + (left + 1) := by omega
    cases plugged : b.input? s!"ARG{args.length}" with
    | none =>
      obtain ⟨ran, enters, happens⟩ := argument_missing service left plugged t u
      rw [ran, enters, happens, List.append_nil, List.append_nil]
      exact .missing gathered there plugged
    | some c =>
      rcases evaluated : env.run c.program t u with ⟨ending, t', u'⟩
      by_cases value : ∃ v, ending = .result (.ok v)
      · obtain ⟨v, rfl⟩ := value
        obtain ⟨ran, enters, happens⟩ := argument_gathered service left plugged evaluated
        have length : args.length + (left + 1) = (args ++ [v]).length + left := by
          rw [List.length_append, Nat.add_assoc, Nat.add_comm _ left]
          rfl
        rw [length, ran, enters, happens, ← List.append_assoc, ← List.append_assoc]
        exact ih (gathered.more plugged evaluated)
      · have valueless (v : Value) : ending ≠ .result (.ok v) := fun eq => value ⟨v, eq⟩
        obtain ⟨ran, enters, happens⟩ :=
          argument_broken service left plugged evaluated valueless
        rw [ran, enters, happens]
        exact .broken gathered there plugged evaluated valueless

end Steps

/-- A block that calls the site makes one complete call or none, as its arguments decide in order,
whenever there is room for as many arguments as it says there are. When there is not, the engine
crashes before any argument is looked at. Nowhere is there room for `2 ^ 58` arguments or more. -/
theorem site_called_once_or_never {ε : Type} {env : Environment Stock ε}
    (unattended : env.Unattended) {b : Block Stock} (call : b.header.behavior = .siteCall)
    {service : String} (named : b.header.fieldText "SERVICE" = .ok service) (s : RunState)
    (w : World ε) :
    (env.site.grants (b.header.count "argCount") w.peers = true → ∀ outcome entered happened,
      (env.run b.own s w = outcome ∧ env.arrivals b.own s w = entered ∧
        env.history b.own s w = happened) ↔
      Calls env b service (b.header.count "argCount") s w outcome entered happened) ∧
    (env.site.grants (b.header.count "argCount") w.peers = false →
      env.run b.own s w = (.crash, s, w) ∧
      env.arrivals b.own s w = [] ∧ env.history b.own s w = []) ∧
    (2 ^ 58 ≤ b.header.count "argCount" →
      env.site.grants (b.header.count "argCount") w.peers = false) := by
  refine ⟨?_, own_refused call named, fun many => env.site.grants_eq_false many w.peers⟩
  intro granted outcome entered happened
  obtain ⟨runs, enters, happens⟩ := own_granted (s := s) call named granted
  rw [runs, enters, happens]
  constructor
  · rintro ⟨rfl, rfl, rfl⟩
    have start : Gathers env b s w [] s w [] [] := .none
    simpa using start.calls unattended service (b.header.count "argCount")
  · exact Calls.runs unattended

/-- Two texts for a service. -/
def echoing : Block Stock :=
  .mk ⟨"site_call", none, .siteCall, [("SERVICE", .string "echo")],
      [⟨Mutation.defaultDomain, "argCount", .number (.nat 2)⟩]⟩
    [("ARG0", text "a"), ("ARG1", text "b")] none
where
  text (content : String) : Block Stock :=
    .mk ⟨"text", none, .text, [("TEXT", .string content)], []⟩ [] none

/-- The service is called with both texts, and answers with them. -/
theorem both_texts_echoed :
    let env : Environment Stock Unit := .alone (.fixed [] [("echo", fun args => .ok (.list args))])
    let w : World Unit := { peers := (), origin := ⟨0, 0⟩ }
    let s := Script.initial ⟨echoing, {}⟩ env w
    let args : List Value := [.string "a", .string "b"]
    ∃ entered, Calls env echoing "echo" 2 s w (.result (.ok (.list args)), s, w) entered
        [.told (.called "echo" args)] ∧
      entered.map (fun a => a.block.header.fields) =
        [[("TEXT", .string "a")], [("TEXT", .string "b")]] := by
  intro env w s args
  refine ⟨env.arrivals echoing.own s w, ?_, rfl⟩
  have ran : env.run echoing.own s w = (.result (.ok (.list args)), s, w) := rfl
  have happened : env.history echoing.own s w = [.told (.called "echo" args)] := rfl
  have unattended : env.Unattended := ⟨rfl, fun _ => rfl⟩
  have call : echoing.header.behavior = .siteCall := rfl
  have named : echoing.header.fieldText "SERVICE" = .ok "echo" := rfl
  obtain ⟨called, -⟩ := site_called_once_or_never unattended call named s w
  exact (called rfl _ _ _).mp ⟨ran, rfl, happened⟩

/-- Though its first argument is not connected, the block does not fail with that, and no call ends
as it does. A run that comes to it crashes, and there is nothing to report of it. -/
theorem first_argument_not_missed :
    let env : Environment Stock Unit := .alone (.bare [])
    let w : World Unit := { peers := (), origin := ⟨0, 0⟩ }
    let s := Script.initial ⟨excessive, {}⟩ env w
    let count := excessive.header.count "argCount"
    count + 1 = UInt64.size ∧
    Calls env excessive "echo" count s w
      (.result (.error (.missingInput "site_call" "?" "ARG0")), s, w) [] [] ∧
    env.run excessive.own s w = (.crash, s, w) ∧
    ¬Calls env excessive "echo" count s w (.crash, s, w) [] [] ∧
    Script.crashes ⟨excessive, {}⟩ env w ∧ Script.run ⟨excessive, {}⟩ env w = none := by
  intro env w s count
  have unattended : env.Unattended := ⟨rfl, fun _ => rfl⟩
  have missed : Calls env excessive "echo" count s w
      (.result (.error (.missingInput "site_call" "?" "ARG0")), s, w) [] [] :=
    .missing .none (by decide) rfl
  have crashes : Script.crashes ⟨excessive, {}⟩ env w := rfl
  refine ⟨rfl, missed, rfl, ?_, crashes, Script.run_of_crashes crashes⟩
  intro calls
  have ran := (calls.runs unattended).1
  rw [(missed.runs unattended).1] at ran
  cases ran

end Block

end BlockScript
