import BlockScript.Proofs.Alongside
import BlockScript.Proofs.Positions
/-!
Branches as a decision list.

The conditions of a block of branches are considered in order, up to the first that holds. Its body
is what runs then, and nothing after it is touched. When none holds, the alternative runs if there
is to be one. The number of branches is one more than a count of 64 bits, and has to be of 64 bits
itself: for the largest count the engine crashes.
-/

namespace BlockScript

variable {ε : Type}

namespace Block

/-- The program of a slot, where one that is not connected has a value all the same. -/
def slot (b : Block Stock) (name : String) (missing : Value) : Program Stock Value :=
  match b.input? name with
  | some c => c.program
  | none => pure missing

def condition (b : Block Stock) (i : Nat) : Program Stock Value :=
  b.slot s!"IF{i}" (.bool false)

def body (b : Block Stock) (i : Nat) : Program Stock Value :=
  b.slot s!"DO{i}" .null

/-- What runs when no condition holds. -/
def alternative (b : Block Stock) : Program Stock Value :=
  if b.header.flag "hasElse" then b.slot "ELSE" .null else pure .null

/-- The branches from an index on. -/
def branchesFrom (b : Block Stock) (count index : Nat) : Program Stock Value :=
  Kinds.branch (program.inputPrograms b.inputs) b.alternative count index

theorem statements_eq_slot (b : Block Stock) (name : String) :
    Inputs.statements (program.inputPrograms b.inputs) name = b.slot name .null := by
  rw [Inputs.statements, value?_inputPrograms, slot, input?]
  cases Entries.value? name b.inputs <;> rfl

theorem branchesFrom_succ (b : Block Stock) (count index : Nat) :
    b.branchesFrom (count + 1) index = b.condition index >>= fun v =>
      if v.truthy then b.body index else b.branchesFrom count (index + 1) := by
  have optional : Inputs.optional (program.inputPrograms b.inputs) s!"IF{index}" >>=
      (fun v => pure (v.getD (.bool false))) = b.condition index := by
    rw [Inputs.optional, value?_inputPrograms, condition, slot, input?]
    cases Entries.value? s!"IF{index}" b.inputs <;> simp
  rw [← optional, bind_assoc]
  simp only [pure_bind]
  rw [body, ← statements_eq_slot]
  rfl

theorem own_of_branches {b : Block Stock} (branches : b.header.behavior = .branches) :
    b.own = if b.header.count "elseIfCount" + 1 < UInt64.size then
      b.branchesFrom (b.header.count "elseIfCount" + 1) 0 else .crash := by
  obtain ⟨h, inputs, next⟩ := b
  have kind : h.behavior = .branches := branches
  have alternative : (Block.mk h inputs next).alternative = if h.flag "hasElse" then
      Inputs.statements (program.inputPrograms inputs) "ELSE" else pure .null := by
    rw [Block.alternative, ← statements_eq_slot]
    rfl
  rw [own, kind, branchesFrom, alternative]
  rfl

/-- The first conditions are considered in order and none of them holds. The run goes from one state
to another and enters the blocks listed. -/
inductive Declines (env : Environment Stock ε) (b : Block Stock) (s : RunState) (w : World ε) :
    Nat → RunState → World ε → List (Arrival Stock ε) → Prop
  | none : Declines env b s w 0 s w []
  | more {i : Nat} {t t' : RunState} {u u' : World ε} {seen : List (Arrival Stock ε)} {v : Value}
      (before : Declines env b s w i t u seen)
      (considered : env.run (b.condition i) t u = (.result (.ok v), t', u'))
      (falsy : v.truthy = false) :
      Declines env b s w (i + 1) t' u' (seen ++ env.arrivals (b.condition i) t u)

/-- How a number of branches ends, and the blocks it enters. -/
inductive Decides (env : Environment Stock ε) (b : Block Stock) (count : Nat) (s : RunState)
    (w : World ε) : Ending Value × RunState × World ε → List (Arrival Stock ε) → Prop
  /-- The first condition that holds has its body run. -/
  | taken {i : Nat} {t t' : RunState} {u u' : World ε} {seen : List (Arrival Stock ε)} {v : Value}
      (there : i < count) (before : Declines env b s w i t u seen)
      (considered : env.run (b.condition i) t u = (.result (.ok v), t', u'))
      (truthy : v.truthy = true) :
      Decides env b count s w (env.run (b.body i) t' u')
        (seen ++ env.arrivals (b.condition i) t u ++ env.arrivals (b.body i) t' u')
  /-- A condition that has no value ends it all. -/
  | broken {i : Nat} {t t' : RunState} {u u' : World ε} {seen : List (Arrival Stock ε)}
      {ending : Ending Value} (there : i < count) (before : Declines env b s w i t u seen)
      (considered : env.run (b.condition i) t u = (ending, t', u'))
      (valueless : ∀ v, ending ≠ .result (.ok v)) :
      Decides env b count s w (ending, t', u') (seen ++ env.arrivals (b.condition i) t u)
  /-- No condition holds. -/
  | otherwise {t : RunState} {u : World ε} {seen : List (Arrival Stock ε)}
      (before : Declines env b s w count t u seen) :
      Decides env b count s w (env.run b.alternative t u) (seen ++ env.arrivals b.alternative t u)

section Steps

variable {env : Environment Stock ε} {b : Block Stock} {s t t' : RunState} {w u u' : World ε}
  {i : Nat} {seen : List (Arrival Stock ε)} {v : Value}

theorem branch_taken (count : Nat)
    (considered : env.run (b.condition i) t u = (.result (.ok v), t', u'))
    (truthy : v.truthy = true) :
    env.run (b.branchesFrom (count + 1) i) t u = env.run (b.body i) t' u' ∧
    env.arrivals (b.branchesFrom (count + 1) i) t u =
      env.arrivals (b.condition i) t u ++ env.arrivals (b.body i) t' u' := by
  rw [branchesFrom_succ, env.run_bind, env.arrivals_bind, considered]
  simp [truthy]

theorem branch_declined (count : Nat)
    (considered : env.run (b.condition i) t u = (.result (.ok v), t', u'))
    (falsy : v.truthy = false) :
    env.run (b.branchesFrom (count + 1) i) t u = env.run (b.branchesFrom count (i + 1)) t' u' ∧
    env.arrivals (b.branchesFrom (count + 1) i) t u =
      env.arrivals (b.condition i) t u ++ env.arrivals (b.branchesFrom count (i + 1)) t' u' := by
  rw [branchesFrom_succ, env.run_bind, env.arrivals_bind, considered]
  simp [falsy]

theorem branch_broken (count : Nat) {ending : Ending Value}
    (considered : env.run (b.condition i) t u = (ending, t', u'))
    (valueless : ∀ v, ending ≠ .result (.ok v)) :
    env.run (b.branchesFrom (count + 1) i) t u = (ending, t', u') ∧
    env.arrivals (b.branchesFrom (count + 1) i) t u = env.arrivals (b.condition i) t u := by
  rw [branchesFrom_succ, env.run_bind, env.arrivals_bind, considered]
  cases ending with
  | result r =>
    cases r with
    | ok v => exact absurd rfl (valueless v)
    | error e => simp
  | cut | stuck | crash => simp

/-- Behind conditions that do not hold, the remaining branches run. -/
theorem Declines.rest (declines : Declines env b s w i t u seen) (count : Nat) :
    env.run (b.branchesFrom (i + count) 0) s w = env.run (b.branchesFrom count i) t u ∧
    env.arrivals (b.branchesFrom (i + count) 0) s w =
      seen ++ env.arrivals (b.branchesFrom count i) t u := by
  induction declines generalizing count with
  | none => simp
  | @more i t t' u u' seen v before considered falsy ih =>
    obtain ⟨runs, enters⟩ := ih (count + 1)
    obtain ⟨ran, entered⟩ := branch_declined count considered falsy
    rw [Nat.add_right_comm, Nat.add_assoc, runs, enters, ran, entered, List.append_assoc]
    exact ⟨rfl, rfl⟩

/-- Whatever is decided is what the branches do. -/
theorem Decides.runs {count : Nat} {outcome : Ending Value × RunState × World ε}
    {entered : List (Arrival Stock ε)} (decides : Decides env b count s w outcome entered) :
    env.run (b.branchesFrom count 0) s w = outcome ∧
    env.arrivals (b.branchesFrom count 0) s w = entered := by
  cases decides with
  | @taken i t t' u u' seen v there before considered truthy =>
    obtain ⟨left, rfl⟩ := Nat.exists_eq_add_of_lt there
    obtain ⟨runs, enters⟩ := before.rest (left + 1)
    obtain ⟨ran, reached⟩ := branch_taken left considered truthy
    rw [Nat.add_assoc, runs, enters, ran, reached, List.append_assoc]
    exact ⟨rfl, rfl⟩
  | @broken i t t' u u' seen ending there before considered valueless =>
    obtain ⟨left, rfl⟩ := Nat.exists_eq_add_of_lt there
    obtain ⟨runs, enters⟩ := before.rest (left + 1)
    obtain ⟨ran, reached⟩ := branch_broken left considered valueless
    rw [Nat.add_assoc, runs, enters, ran, reached]
    exact ⟨rfl, rfl⟩
  | otherwise before => exact before.rest 0

/-- What the branches do from an index on is decided, when no condition before it holds. -/
theorem Declines.decides (declines : Declines env b s w i t u seen) (left : Nat) :
    Decides env b (i + left) s w (env.run (b.branchesFrom left i) t u)
      (seen ++ env.arrivals (b.branchesFrom left i) t u) := by
  -- What was considered so far is part of the induction: a condition that does not hold only adds
  -- to it.
  induction left generalizing i t u seen with
  | zero => exact .otherwise declines
  | succ left ih =>
    have there : i < i + (left + 1) := by omega
    rcases ran : env.run (b.condition i) t u with ⟨ending, t', u'⟩
    by_cases value : ∃ v, ending = .result (.ok v)
    · obtain ⟨v, rfl⟩ := value
      cases holds : v.truthy with
      | true =>
        obtain ⟨runs, enters⟩ := branch_taken left ran holds
        rw [runs, enters, ← List.append_assoc]
        exact .taken there declines ran holds
      | false =>
        obtain ⟨runs, enters⟩ := branch_declined left ran holds
        rw [runs, enters, ← List.append_assoc, ← Nat.add_assoc, Nat.add_right_comm]
        exact ih (declines.more ran holds)
    · have valueless (v : Value) : ending ≠ .result (.ok v) := fun eq => value ⟨v, eq⟩
      obtain ⟨runs, enters⟩ := branch_broken left ran valueless
      rw [runs, enters]
      exact .broken there declines ran valueless

end Steps

theorem branches_iff_decides (env : Environment Stock ε) (b : Block Stock) (count : Nat)
    (s : RunState) (w : World ε) (outcome : Ending Value × RunState × World ε)
    (entered : List (Arrival Stock ε)) :
    (env.run (b.branchesFrom count 0) s w = outcome ∧
      env.arrivals (b.branchesFrom count 0) s w = entered) ↔
    Decides env b count s w outcome entered := by
  constructor
  · rintro ⟨rfl, rfl⟩
    have start : Declines env b s w 0 s w [] := .none
    simpa using start.decides count
  · exact Decides.runs

/-- Branches are a decision list: what a block of them does, and which blocks it enters, is decided
by its conditions in order. For the largest count none of them is considered, and the engine
crashes. -/
theorem branches_are_a_decision_list {ε : Type} (env : Environment Stock ε) {b : Block Stock}
    (branches : b.header.behavior = .branches) (s : RunState) (w : World ε) :
    (b.header.count "elseIfCount" + 1 < UInt64.size → ∀ outcome entered,
      (env.run b.own s w = outcome ∧ env.arrivals b.own s w = entered) ↔
        Decides env b (b.header.count "elseIfCount" + 1) s w outcome entered) ∧
    (UInt64.size ≤ b.header.count "elseIfCount" + 1 →
      env.run b.own s w = (.crash, s, w) ∧ env.arrivals b.own s w = [] ∧
      env.news b.own s w = []) := by
  rw [own_of_branches branches]
  constructor
  · intro few outcome entered
    rw [if_pos few]
    exact branches_iff_decides env b _ s w outcome entered
  · intro excess
    rw [if_neg (Nat.not_lt.mpr excess)]
    exact ⟨rfl, rfl, env.news_crash s w⟩

/-- A first condition that is not connected, a second one of empty text, and a third one that
holds. -/
def thirdTaken : Block Stock :=
  .mk ⟨"controls_if", none, .branches, [],
      [⟨Mutation.defaultDomain, "elseIfCount", .number (.nat 2)⟩,
        ⟨Mutation.defaultDomain, "hasElse", .bool true⟩]⟩
    [("DO0", text "first"), ("DO2", text "third"), ("ELSE", text "other"), ("IF1", text ""),
      ("IF2", .mk ⟨"logic_boolean", none, .boolean, [("BOOL", .string "TRUE")], []⟩ [] none)]
    none
where
  text (content : String) : Block Stock :=
    .mk ⟨"text", none, .text, [("TEXT", .string content)], []⟩ [] none

/-- The third branch is decided on after its condition and the one before it, and nothing else is
entered. -/
theorem third_branch_taken :
    let env : Environment Stock Unit := .alone (.bare [])
    let w : World Unit := { peers := (), origin := ⟨0, 0⟩ }
    let s := Script.initial ⟨thirdTaken, {}⟩ env w
    thirdTaken.header.count "elseIfCount" = 2 ∧
    ∃ entered, Decides env thirdTaken 3 s w (.result (.ok (.string "third")), s, w) entered ∧
      entered.map (fun a => a.block.kind) = ["text", "logic_boolean", "text"] := by
  intro env w s
  refine ⟨rfl, env.arrivals thirdTaken.own s w, ?_, rfl⟩
  have ran : env.run thirdTaken.own s w = (.result (.ok (.string "third")), s, w) := rfl
  obtain ⟨decided, -⟩ := branches_are_a_decision_list env (b := thirdTaken) rfl s w
  exact (decided (by decide) _ _).mp ⟨ran, rfl⟩

/-- A first condition that holds, in a block with the largest count. -/
def largestCount : Block Stock :=
  .mk ⟨"controls_if", none, .branches, [],
      [⟨Mutation.defaultDomain, "elseIfCount", .number (.nat (UInt64.size - 1))⟩]⟩
    [("DO0", thirdTaken.text "A"),
      ("IF0", .mk ⟨"logic_boolean", none, .boolean, [("BOOL", .string "TRUE")], []⟩ [] none)]
    none

/-- Though its first condition holds, the block enters nothing and crashes the run, which is not
what that condition decides. -/
theorem first_condition_not_considered :
    let env : Environment Stock Unit := .alone (.bare [])
    let w : World Unit := { peers := (), origin := ⟨0, 0⟩ }
    let s := Script.initial ⟨largestCount, {}⟩ env w
    let count := largestCount.header.count "elseIfCount"
    count + 1 = UInt64.size ∧
    env.run (largestCount.condition 0) s w = (.result (.ok (.bool true)), s, w) ∧
    env.run (largestCount.body 0) s w = (.result (.ok (.string "A")), s, w) ∧
    env.run largestCount.own s w = (.crash, s, w) ∧
    env.arrivals largestCount.own s w = [] ∧
    ¬Decides env largestCount (count + 1) s w (.crash, s, w) [] ∧
    Script.crashes ⟨largestCount, {}⟩ env w := by
  intro env w s count
  have holds : env.run (largestCount.condition 0) s w = (.result (.ok (.bool true)), s, w) := rfl
  have taken : env.run (largestCount.body 0) s w = (.result (.ok (.string "A")), s, w) := rfl
  refine ⟨rfl, holds, taken, rfl, rfl, ?_, rfl⟩
  intro decides
  have ran := decides.runs.1
  rw [(branch_taken count holds rfl).1, taken] at ran
  cases ran

end Block

end BlockScript
