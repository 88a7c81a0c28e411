import BlockScript.Proofs.Recording
import BlockScript.Proofs.Traces
/-!
Every standard kind reads its slots according to its plan.

The rules say how far a plan is followed by a program, from how far its parts follow it. What a
slot tells is taken from the chain that is plugged into it.
-/

namespace BlockScript

variable {ε α γ : Type}

/-- The interceptions among what was told. -/
def stops (news : List (Notice Stock)) : List Stop :=
  news.filterMap fun
    | .stopped reason block _ => some (reason, block)
    | _ => none

theorem stops_append (first second : List (Notice Stock)) :
    stops (first ++ second) = stops first ++ stops second :=
  List.filterMap_append

/-- Actions that are no concern of a debugger. -/
def Action.Silent : Action Stock → Prop
  | .stop _ _ => False
  | _ => True

namespace Environment

variable (env : Environment Stock ε)

/-- The interceptions of a program. -/
def stopsOf (p : Program Stock α) (s : RunState) (w : World ε) : List Stop :=
  stops (env.news p s w)

theorem stopsOf_perform (a : Action Stock) (s : RunState) (w : World ε) :
    env.stopsOf (Program.perform a) s w = stops (env.notices a s w.peers) :=
  congrArg stops (env.news_perform a s w)

theorem stops_notices_nil (a : Action Stock) (silent : a.Silent) (s : RunState) (e : ε) :
    stops (env.notices a s e) = [] := by
  unfold notices
  split
  · rfl
  · cases a with
    | stop reason block => exact silent.elim
    | _ => rfl

/-- The run of a program comes by a state, after some interceptions. -/
inductive Passes {α : Type} :
    Program Stock α → RunState → World ε → List Stop → RunState → World ε → Prop
  | here (p : Program Stock α) (s : RunState) (w : World ε) : Passes p s w [] s w
  | later {a : Action Stock} {resume : Except ScriptError a.Reply → Program Stock α}
      {s t s' : RunState} {w v w' : World ε} {reply : Except ScriptError a.Reply} {T : List Stop}
      (step : env.perform a s w = (.result reply, t, v))
      (rest : Passes (resume reply) t v T s' w') :
      Passes (.act a resume) s w (stops (env.notices a s w.peers) ++ T) s' w'

variable {env}

theorem Passes.bind {p : Program Stock α} {s s' : RunState} {w w' : World ε} {T : List Stop}
    (h : env.Passes p s w T s' w') (f : α → Program Stock γ) :
    env.Passes (p >>= f) s w T s' w' := by
  induction h with
  | here p s w => exact .here _ s w
  | later step rest ih => exact .later step ih

theorem Passes.closing {p : Program Stock α} {s s' : RunState} {w w' : World ε} {T : List Stop}
    (h : env.Passes p s w T s' w') (previous : Nat) :
    env.Passes (p.closing previous) s w T s' w' := by
  induction h with
  | here p s w => exact .here _ s w
  | later step rest ih => exact .later step ih

/-- What comes after a program is passed after all it tells. -/
theorem Passes.after {p : Program Stock α} {f : α → Program Stock γ} {s t s' : RunState}
    {w v w' : World ε} {a : α} {T : List Stop} (ran : env.run p s w = (.result (.ok a), t, v))
    (h : env.Passes (f a) t v T s' w') :
    env.Passes (p >>= f) s w (env.stopsOf p s w ++ T) s' w' := by
  induction p generalizing s w with
  | done r =>
    cases ran
    exact h
  | act b resume ih =>
    simp only [run] at ran
    split at ran
    · next reply u x step =>
      have told : env.stopsOf (.act b resume) s w =
          stops (env.notices b s w.peers) ++ env.stopsOf (resume reply) u x := by
        simp only [stopsOf, news, step, stops_append]
      rw [told, List.append_assoc]
      exact .later step (ih reply ran)
    all_goals cases ran

theorem Passes.inScope {p : Program Stock α} {s s' : RunState} {w w' : World ε} {T : List Stop}
    (h : env.Passes p { s with scopes := s.scopes.openScope } w T s' w') :
    env.Passes p.inScope s w T s' w' := by
  have opened : env.run (Program.perform .openScope) s w =
      (.result (.ok s.scopes.current), { s with scopes := s.scopes.openScope }, w) := rfl
  have silent : env.stopsOf (Program.perform .openScope) s w = [] :=
    (env.stopsOf_perform .openScope s w).trans (env.stops_notices_nil .openScope trivial s w.peers)
  have passed :
      env.Passes p.inScope s w (env.stopsOf (Program.perform .openScope) s w ++ T) s' w' :=
    Passes.after opened (h.closing s.scopes.current)
  rw [silent] at passed
  exact passed

/-- A place in a run: what was told, the state, and the world around. -/
abbrev Place (ε : Type) := List Stop → RunState → World ε → Prop

/-- All that the run of a program comes by is among some places. -/
def Within (env : Environment Stock ε) (places : Place ε) (past : List Stop)
    (p : Program Stock α) (s : RunState) (w : World ε) : Prop :=
  ∀ T s' w', env.Passes p s w T s' w' → places (past ++ T) s' w'

/-- What the evaluations of blocks at some places come to. -/
def account (env : Environment Stock ε) (places : Place ε) : Account :=
  fun past b r T => ∃ s w s' w', places past s w ∧ env.run b.own s w = (.of r, s', w') ∧
    env.stopsOf b.own s w = T

section
variable {places : Place ε} {past : List Stop} {s : RunState} {w : World ε}

theorem Within.here {p : Program Stock α} (h : env.Within places past p s w) :
    places past s w := by
  simpa using h [] s w (.here p s w)

theorem Within.first {p : Program Stock α} {f : α → Program Stock γ}
    (h : env.Within places past (p >>= f) s w) : env.Within places past p s w :=
  fun T s' w' passes => h T s' w' (passes.bind f)

theorem Within.second {p : Program Stock α} {f : α → Program Stock γ} {t : RunState}
    {v : World ε} {a : α} (h : env.Within places past (p >>= f) s w)
    (ran : env.run p s w = (.result (.ok a), t, v)) :
    env.Within places (past ++ env.stopsOf p s w) (f a) t v := by
  intro T s' w' passes
  rw [List.append_assoc]
  exact h _ s' w' (passes.after ran)

theorem Within.inScope {p : Program Stock α} (h : env.Within places past p.inScope s w) :
    env.Within places past p { s with scopes := s.scopes.openScope } w :=
  fun T s' w' passes => h T s' w' passes.inScope

end

theorem stopsOf_bind_ok {p : Program Stock α} {f : α → Program Stock γ} {s t : RunState}
    {w v : World ε} {a : α} (ran : env.run p s w = (.result (.ok a), t, v)) :
    env.stopsOf (p >>= f) s w = env.stopsOf p s w ++ env.stopsOf (f a) t v := by
  rw [stopsOf, news_bind, ran, stops_append]
  rfl

theorem stopsOf_bind_interrupted {p : Program Stock α} {f : α → Program Stock γ} {s t : RunState}
    {w v : World ε} {i : Interruption} (ran : env.run p s w = (.of (.error i), t, v)) :
    env.stopsOf (p >>= f) s w = env.stopsOf p s w := by
  rw [stopsOf, news_bind, ran]
  cases i <;> simp [Ending.of, stopsOf]

end Environment

/-- What the slots of a block tell while a plan is followed, and how far it is followed. -/
inductive Progress (account : Account) (inputs : List (String × Block Stock)) :
    List Stop → Plan → Except Interruption Value → List Stop → Prop
  | finished {past : List Stop} {plan : Plan} {v : Value} {rs : List Reading} {T : List Stop}
      (reads : plan.Leads rs .stop) (inside : Inside account past inputs rs T) :
      Progress account inputs past plan (.ok v) T
  | raised {past : List Stop} {plan rest : Plan} {i : Interruption} {rs : List Reading}
      {T : List Stop} (reads : plan.Leads rs rest) (inside : Inside account past inputs rs T) :
      Progress account inputs past plan (.error i) T
  | broken {past : List Stop} {plan : Plan} {i : Interruption} {rs : List Reading}
      {T U : List Stop} {slot : String} {go : Option Value → Plan} {c : Block Stock}
      {path : List (Block Stock)} (reads : plan.Leads rs (.ask slot go))
      (inside : Inside account past inputs rs T) (found : Entries.value? slot inputs = some c)
      (failed : Broken account (past ++ T) c i path U) :
      Progress account inputs past plan (.error i) (T ++ U)

namespace Progress

variable {account : Account} {inputs : List (String × Block Stock)} {past : List Stop}
  {slot : String} {go : Option Value → Plan} {r : Except Interruption Value} {U : List Stop}

theorem plugged {c : Block Stock} {v : Value} {T : List Stop}
    (found : Entries.value? slot inputs = some c) (chain : Trace account past c v T)
    (h : Progress account inputs (past ++ T) (go (some v)) r U) :
    Progress account inputs past (.ask slot go) r (T ++ U) := by
  cases h with
  | finished reads inside => exact .finished (.read reads) (.plugged found chain inside)
  | raised reads inside => exact .raised (.read reads) (.plugged found chain inside)
  | broken reads inside found' failed =>
    rw [← List.append_assoc]
    exact .broken (.read reads) (.plugged found chain inside) found' (by simpa using failed)

theorem unplugged (missing : Entries.value? slot inputs = none)
    (h : Progress account inputs past (go none) r U) :
    Progress account inputs past (.ask slot go) r U := by
  cases h with
  | finished reads inside => exact .finished (.read reads) (.unplugged missing inside)
  | raised reads inside => exact .raised (.read reads) (.unplugged missing inside)
  | broken reads inside found failed =>
    exact .broken (.read reads) (.unplugged missing inside) found failed

end Progress

/-- What a chain tells, by what it comes to. -/
def Recounts (account : Account) (past : List Stop) (c : Block Stock) :
    Except Interruption Value → List Stop → Prop
  | .ok v, T => Trace account past c v T
  | .error i, T => ∃ path, Broken account past c i path T

namespace Environment

variable (env : Environment Stock ε) (places : Place ε)

/-- A program that tells what a chain tells. -/
def Carries (p : Program Stock Value) (c : Block Stock) : Prop :=
  ∀ past s w r s' w', env.Within places past p s w → env.run p s w = (.of r, s', w') →
    Recounts (env.account places) past c r (env.stopsOf p s w)

/-- A program that reads the slots of a block according to a plan. -/
def Follows (inputs : List (String × Block Stock)) (p : Program Stock Value) (plan : Plan) : Prop :=
  ∀ past s w r s' w', env.Within places past p s w → env.run p s w = (.of r, s', w') →
    Progress (env.account places) inputs past plan r (env.stopsOf p s w)

variable {env places}

theorem Carries.inScope {p : Program Stock Value} {c : Block Stock} (h : env.Carries places p c) :
    env.Carries places p.inScope c := by
  intro past s w r s' w' within ran
  obtain ⟨t, ran'⟩ := run_inScope_of ran
  rw [stopsOf, news_inScope]
  exact h past _ w r t w' within.inScope ran'

variable {inputs : List (String × Block Stock)}

theorem follows_value (v : Value) : env.Follows places inputs (.done (.ok v)) .stop := by
  intro past s w r s' w' within ran
  obtain rfl : Except.ok v = r := Ending.of_injective (congrArg Prod.fst ran)
  exact .finished (.here _) (.nil _ _)

theorem follows_fail (e : ScriptError) (plan : Plan) :
    env.Follows places inputs (.done (.error e)) plan := by
  intro past s w r s' w' within ran
  obtain rfl : Except.error (.error e) = r := Ending.of_injective (congrArg Prod.fst ran)
  exact .raised (.here _) (.nil _ _)

theorem follows_lift (x : Except ScriptError α) {f : α → Program Stock Value} {plan : Plan}
    (rest : ∀ a, x = .ok a → env.Follows places inputs (f a) plan) :
    env.Follows places inputs (liftM x >>= f) plan := by
  cases x with
  | ok a => exact rest a rfl
  | error e => exact follows_fail e plan

theorem follows_act {a : Action Stock} (silent : a.Silent) {f : a.Reply → Program Stock Value}
    {plan : Plan} (rest : ∀ x, env.Follows places inputs (f x) plan) :
    env.Follows places inputs (Program.perform a >>= f) plan := by
  intro past s w r s' w' within ran
  have told : env.stopsOf (Program.perform a) s w = [] :=
    (env.stopsOf_perform a s w).trans (env.stops_notices_nil a silent s w.peers)
  obtain ⟨x, t, v, first, second⟩ | ⟨i, rfl, failed⟩ := run_bind_of ran
  · have onward := rest x _ t v r s' w' (within.second first) second
    rw [stopsOf_bind_ok first]
    simpa [told] using onward
  · rw [stopsOf_bind_interrupted failed, told]
    exact .raised (.here _) (.nil _ _)

/-- A scope in which nothing happens. -/
theorem follows_empty_scope (v : Value) {f : Value → Program Stock Value} {plan : Plan}
    (rest : env.Follows places inputs (f v) plan) :
    env.Follows places inputs (Program.inScope (.done (.ok v)) >>= f) plan := by
  -- The closing of a scope is no step of a sequence, so the rule for actions does not apply.
  intro past s w r s' w' within ran
  have told : env.stopsOf (Program.inScope (.done (.ok v))) s w = [] := by
    rw [stopsOf, news_inScope]
    rfl
  obtain ⟨x, t, u, first, second⟩ | ⟨i, rfl, failed⟩ := run_bind_of ran
  · have onward := within.second first
    rw [stopsOf_bind_ok first, told]
    rw [told, List.append_nil] at onward
    cases first
    exact rest past _ _ r s' w' onward second
  · have impossible : Except.ok v = .error i := Ending.of_injective (congrArg Prod.fst failed)
    cases impossible

/-- Reading a slot that a chain is plugged into. -/
theorem follows_chain {slot : String} {c : Block Stock} {p : Program Stock Value}
    {f : Value → Program Stock Value} {go : Option Value → Plan}
    (found : Entries.value? slot inputs = some c) (carries : env.Carries places p c)
    (rest : ∀ v, env.Follows places inputs (f v) (go (some v))) :
    env.Follows places inputs (p >>= f) (.ask slot go) := by
  intro past s w r s' w' within ran
  obtain ⟨x, t, v, first, second⟩ | ⟨i, rfl, failed⟩ := run_bind_of ran
  · have chain : Trace _ past c x _ := carries past s w (.ok x) t v within.first first
    rw [stopsOf_bind_ok first]
    exact .plugged found chain (rest x _ t v r s' w' (within.second first) second)
  · obtain ⟨path, broken⟩ := carries past s w _ s' w' within.first failed
    rw [← List.append_nil past] at broken
    rw [stopsOf_bind_interrupted failed]
    exact .broken (.here _) (.nil _ _) found broken

theorem follows_unplugged {slot : String} {p : Program Stock Value} {go : Option Value → Plan}
    (missing : Entries.value? slot inputs = none) (h : env.Follows places inputs p (go none)) :
    env.Follows places inputs p (.ask slot go) :=
  fun past s w r s' w' within ran => (h past s w r s' w' within ran).unplugged missing

/-- The chains in the slots of a block tell what they should. -/
def Sourced (env : Environment Stock ε) (places : Place ε)
    (inputs : List (String × Block Stock)) : Prop :=
  ∀ slot c, Entries.value? slot inputs = some c → env.Carries places c.program c

section
variable (sourced : env.Sourced places inputs) (slot : String) {go : Option Value → Plan}
include sourced

theorem Sourced.required (h : Header Stock) {f : Value → Program Stock Value}
    (rest : ∀ v, env.Follows places inputs (f v) (go (some v))) :
    env.Follows places inputs (Inputs.required (Block.program.inputPrograms inputs) h slot >>= f)
      (.ask slot go) := by
  rw [Inputs.required, Block.value?_inputPrograms]
  cases found : Entries.value? slot inputs with
  | none => exact follows_fail _ _
  | some c => exact follows_chain found (sourced slot c found) rest

theorem Sourced.optional {f : Option Value → Program Stock Value}
    (rest : ∀ held, env.Follows places inputs (f held) (go held)) :
    env.Follows places inputs (Inputs.optional (Block.program.inputPrograms inputs) slot >>= f)
      (.ask slot go) := by
  rw [Inputs.optional, Block.value?_inputPrograms]
  cases found : Entries.value? slot inputs with
  | none => exact follows_unplugged found (rest none)
  | some c =>
    simp only [Option.map_some, bind_assoc, pure_bind]
    exact follows_chain found (sourced slot c found) fun v => rest (some v)

theorem Sourced.statements {f : Value → Program Stock Value}
    (rest : ∀ v held, env.Follows places inputs (f v) (go held)) :
    env.Follows places inputs (Inputs.statements (Block.program.inputPrograms inputs) slot >>= f)
      (.ask slot go) := by
  rw [Inputs.statements, Block.value?_inputPrograms]
  cases found : Entries.value? slot inputs with
  | none => exact follows_unplugged found (rest .null none)
  | some c => exact follows_chain found (sourced slot c found) fun v => rest v (some v)

theorem Sourced.scoped {f : Value → Program Stock Value}
    (rest : ∀ v held, env.Follows places inputs (f v) (go held)) :
    env.Follows places inputs
      ((Inputs.statements (Block.program.inputPrograms inputs) slot).inScope >>= f)
      (.ask slot go) := by
  rw [Inputs.statements, Block.value?_inputPrograms]
  cases found : Entries.value? slot inputs with
  | none => exact follows_unplugged found (follows_empty_scope .null (rest .null none))
  | some c => exact follows_chain found (sourced slot c found).inScope fun v => rest v (some v)

end

end Environment

namespace Kinds

open Environment (follows_value follows_fail follows_lift follows_act)
open Block.program (inputPrograms)

variable {env : Environment Stock ε} {places : Environment.Place ε}
  {inputs : List (String × Block Stock)} (sourced : env.Sourced places inputs) (h : Header Stock)
include sourced

theorem arithmeticBlock_follows :
    env.Follows places inputs (arithmeticBlock h (inputPrograms inputs)) (.inOrder ["A", "B"]) :=
  follows_lift _ fun _ _ => sourced.required "A" h fun _ => follows_lift _ fun _ _ =>
    sourced.required "B" h fun _ => follows_lift _ fun _ _ => follows_lift _ fun _ _ =>
      follows_value _

theorem comparisonBlock_follows :
    env.Follows places inputs (comparisonBlock h (inputPrograms inputs)) (.inOrder ["A", "B"]) :=
  follows_lift _ fun _ _ => sourced.required "A" h fun _ => sourced.required "B" h fun _ =>
    follows_lift _ fun _ _ => follows_value _

/-- The second operand is read exactly when the first leaves the result open. -/
theorem logicBlock_follows :
    env.Follows places inputs (logicBlock h (inputPrograms inputs)) (Stock.logic.plan h) := by
  have second : env.Follows places inputs (logicBlock.second h (inputPrograms inputs))
      (.inOrder ["B"]) := sourced.required "B" h fun _ => follows_value _
  -- The plan looks the operator up again, so what was read of it is kept.
  refine follows_lift _ fun op read => sourced.required "A" h fun a => ?_
  split
  · rw [Stock.leavesOpen_and read]
    split
    · exact second
    · exact follows_value _
  · rw [Stock.leavesOpen_or read]
    cases a.truthy with
    | true => exact follows_value _
    | false => exact second
  · exact follows_fail _ _

theorem negationBlock_follows :
    env.Follows places inputs (negationBlock h (inputPrograms inputs)) (.inOrder ["BOOL"]) :=
  sourced.required "BOOL" h fun _ => follows_value _

theorem joinItems_follows (count index : Nat) {f : String → Program Stock Value}
    (rest : ∀ text, env.Follows places inputs (f text) .stop) :
    env.Follows places inputs (joinItems (inputPrograms inputs) count index >>= f)
      (.inOrder (Plan.numbered "ADD" count index)) := by
  induction count generalizing index f with
  | zero => exact rest ""
  | succ count ih =>
    simp only [joinItems, bind_assoc, pure_bind]
    exact sourced.optional _ fun item => ih (index + 1) fun text => rest _

theorem joinBlock_follows :
    env.Follows places inputs (joinBlock h (inputPrograms inputs)) (Stock.join.plan h) :=
  joinItems_follows sourced _ 0 fun _ => follows_value _

omit sourced in
theorem getBlock_follows : env.Follows places inputs (getBlock h) .stop := by
  refine follows_lift _ fun name _ => ?_
  rw [← bind_pure (Program.perform (.lookup name))]
  exact follows_act (a := .lookup name) trivial fun v => follows_value v

theorem setBlock_follows :
    env.Follows places inputs (setBlock h (inputPrograms inputs)) (.inOrder ["VALUE"]) :=
  follows_lift _ fun name _ => sourced.required "VALUE" h fun value =>
    follows_act (a := .assign name value) trivial fun _ => follows_value _

theorem setGlobalBlock_follows :
    env.Follows places inputs (setGlobalBlock h (inputPrograms inputs)) (.inOrder ["VALUE"]) :=
  follows_lift _ fun name _ => sourced.required "VALUE" h fun value =>
    follows_act (a := .assignGlobal name value) trivial fun _ => follows_value _

theorem statements_follows (slot : String) :
    env.Follows places inputs (Inputs.statements (inputPrograms inputs) slot)
      (.inOrder [slot]) := by
  rw [← bind_pure (Inputs.statements (inputPrograms inputs) slot)]
  exact sourced.statements slot fun v _ => follows_value v

theorem branch_follows {otherwise : Program Stock Value} {slots : List String}
    (last : env.Follows places inputs otherwise (.inOrder slots)) (count index : Nat) :
    env.Follows places inputs (branch (inputPrograms inputs) otherwise count index)
      (Stock.branchPlan slots count index) := by
  induction count generalizing index with
  | zero => exact last
  | succ count ih =>
    refine sourced.optional _ fun condition => ?_
    split
    · exact statements_follows sourced _
    · exact ih (index + 1)

/-- With too many branches to count, none of the slots is read. -/
theorem ifBlock_follows :
    env.Follows places inputs (ifBlock h (inputPrograms inputs)) (Stock.branches.plan h) := by
  by_cases few : h.count "elseIfCount" + 1 < Nat.pow 2 64
  · simp only [ifBlock, few, ↓reduceIte]
    apply branch_follows sourced
    cases h.flag "hasElse" with
    | true => exact statements_follows sourced "ELSE"
    | false => exact follows_value _
  · simp only [ifBlock, few, ↓reduceIte]
    exact follows_act (a := .crash) trivial fun x => x.elim

theorem iterate_follows (times : Nat) (last : Value) :
    env.Follows places inputs (iterate (inputPrograms inputs) times last)
      (.inOrder (List.replicate times "DO")) := by
  induction times generalizing last with
  | zero => exact follows_value last
  | succ times ih =>
    exact follows_act (a := .checkAbort) trivial fun _ => sourced.scoped "DO" fun v _ => ih v

theorem repeatBlock_follows :
    env.Follows places inputs (repeatBlock h (inputPrograms inputs)) (Stock.repetition.plan h) := by
  simp only [repeatBlock, Stock.plan]
  split
  · refine follows_lift _ fun x read => ?_
    rw [read]
    exact iterate_follows sourced _ _
  · refine sourced.required "TIMES" h fun v => follows_lift _ fun x read => ?_
    rw [Option.elim_some, read]
    exact iterate_follows sourced _ _

theorem scopeBlock_follows :
    env.Follows places inputs (scopeBlock (inputPrograms inputs)) (.inOrder ["DO"]) := by
  rw [← bind_pure (scopeBlock (inputPrograms inputs))]
  exact sourced.scoped "DO" fun v _ => follows_value v

theorem failBlock_follows :
    env.Follows places inputs (failBlock (inputPrograms inputs)) (.inOrder ["MESSAGE"]) :=
  sourced.optional "MESSAGE" fun _ => follows_fail _ _

theorem slotValues_follows (name : String) (count index : Nat)
    {f : List Value → Program Stock Value}
    (rest : ∀ values, env.Follows places inputs (f values) .stop) :
    env.Follows places inputs (slotValues h (inputPrograms inputs) name count index >>= f)
      (.inOrder (Plan.numbered name count index)) := by
  induction count generalizing index f with
  | zero => exact rest []
  | succ count ih =>
    simp only [slotValues, bind_assoc, pure_bind]
    exact sourced.required _ h fun v => ih (index + 1) fun values => rest _

theorem callBlock_follows :
    env.Follows places inputs (callBlock h (inputPrograms inputs)) (Stock.siteCall.plan h) := by
  refine follows_lift _ fun service _ =>
    follows_act (a := .reserve (h.count "argCount")) trivial fun _ =>
      slotValues_follows sourced h "ARG" _ 0 fun args => ?_
  rw [← bind_pure (Program.callSite service args), Program.callSite, bind_assoc]
  exact follows_act (a := .checkAbort) trivial fun _ =>
    follows_act (a := .call service args) trivial fun v => follows_value v

theorem childBlock_follows :
    env.Follows places inputs (childBlock h (inputPrograms inputs)) (.inOrder ["INPUT"]) := by
  refine follows_lift _ fun name _ => sourced.optional "INPUT" fun input => ?_
  simp only [Program.spawnChild, bind_assoc, pure_bind]
  exact follows_act (a := .checkAbort) trivial fun _ =>
    follows_act (a := .spawn name _) trivial fun child =>
      follows_act (a := .attach (.childScript child.id)) trivial fun _ => follows_value _

theorem tagBlock_follows :
    env.Follows places inputs (tagBlock h (inputPrograms inputs)) (.inOrder ["VALUE"]) :=
  follows_lift _ fun key _ => sourced.required "VALUE" h fun value =>
    follows_act (a := .attach (.tag key value.toJson)) trivial fun _ => follows_value _

end Kinds

theorem Stock.program_follows {env : Environment Stock ε} {places : Environment.Place ε}
    {inputs : List (String × Block Stock)} (sourced : env.Sourced places inputs)
    (h : Header Stock) (k : Stock) :
    env.Follows places inputs (k.program h (Block.program.inputPrograms inputs)) (k.plan h) := by
  cases k with
  | number => exact Environment.follows_lift _ fun _ _ => Environment.follows_value _
  | text => exact Environment.follows_lift _ fun _ _ => Environment.follows_value _
  | boolean =>
    change env.Follows places inputs (.done (Kinds.booleanLiteral h)) .stop
    cases Kinds.booleanLiteral h with
    | ok v => exact Environment.follows_value v
    | error e => exact Environment.follows_fail e _
  | null => exact Environment.follows_value _
  | arithmetic => exact Kinds.arithmeticBlock_follows sourced h
  | comparison => exact Kinds.comparisonBlock_follows sourced h
  | logic => exact Kinds.logicBlock_follows sourced h
  | negation => exact Kinds.negationBlock_follows sourced h
  | join => exact Kinds.joinBlock_follows sourced h
  | getVariable => exact Kinds.getBlock_follows h
  | setVariable => exact Kinds.setBlock_follows sourced h
  | setGlobal => exact Kinds.setGlobalBlock_follows sourced h
  | branches => exact Kinds.ifBlock_follows sourced h
  | repetition => exact Kinds.repeatBlock_follows sourced h
  | scope => exact Kinds.scopeBlock_follows sourced
  | failure => exact Kinds.failBlock_follows sourced
  | siteCall => exact Kinds.callBlock_follows sourced h
  | childScript => exact Kinds.childBlock_follows sourced h
  | logTag => exact Kinds.tagBlock_follows sourced h

end BlockScript
