import Mathlib.Data.List.Chain
import BlockScript.Proofs.Composition
/-!
The order of interceptions, as a grammar.

A plan says which slots a kind reads, each next one by what the earlier ones held. The trace of a
chain enters its first block, goes through the chains in the slots the block reads, leaves the
block, and goes on with its successor. A broken trace ends inside the block that raised an error or
crashed.
-/

namespace BlockScript

/-- A slot that was read and what it held, if anything was plugged into it. -/
abbrev Reading := String × Option Value

/-- Which slots are read, and in what order. -/
inductive Plan where
  | stop
  | ask (slot : String) (go : Option Value → Plan)

namespace Plan

def inOrder : List String → Plan
  | [] => .stop
  | slot :: rest => .ask slot fun _ => inOrder rest

/-- The slots `NAMEi` from `index` on. -/
def numbered (name : String) (count index : Nat) : List String :=
  (List.range' index count).map fun i => s!"{name}{i}"

/-- Readings that take a plan to what is left of it. -/
inductive Leads : Plan → List Reading → Plan → Prop
  | here (plan : Plan) : Leads plan [] plan
  | read {slot : String} {go : Option Value → Plan} {held : Option Value} {rs : List Reading}
      {rest : Plan} (onward : Leads (go held) rs rest) :
      Leads (.ask slot go) ((slot, held) :: rs) rest

theorem Leads.append {p q r : Plan} {rs qs : List Reading} (first : p.Leads rs q)
    (second : q.Leads qs r) : p.Leads (rs ++ qs) r := by
  induction first with
  | here plan => exact second
  | read onward ih => exact .read (ih second)

end Plan

namespace Stock

variable {β : Type}

/-- Whether the first operand leaves the result open. -/
def leavesOpen (h : Header β) (first : Option Value) : Bool :=
  match h.fieldText "OP", first with
  | .ok "AND", some a => a.truthy
  | .ok "OR", some a => !a.truthy
  | _, _ => false

theorem leavesOpen_and {h : Header β} (op : h.fieldText "OP" = .ok "AND") (a : Value) :
    leavesOpen h (some a) = a.truthy := by
  simp [leavesOpen, op]

theorem leavesOpen_or {h : Header β} (op : h.fieldText "OP" = .ok "OR") (a : Value) :
    leavesOpen h (some a) = !a.truthy := by
  simp [leavesOpen, op]

/-- Conditions up to the first that holds, then its statements, or else the last resort. -/
def branchPlan (otherwise : List String) : (count index : Nat) → Plan
  | 0, _ => .inOrder otherwise
  | count + 1, index => .ask s!"IF{index}" fun condition =>
    if (condition.getD (.bool false)).truthy then .inOrder [s!"DO{index}"]
    else branchPlan otherwise count (index + 1)

/-- The body as often as a number says; what is no number repeats nothing. -/
def bodyPlan (x : Except ScriptError Float) : Plan :=
  match x with
  | .ok x => .inOrder (List.replicate (Kinds.timesOf x) "DO")
  | .error _ => .stop

/-- The slots that a block of a standard kind reads. -/
def plan (h : Header β) : Stock → Plan
  | .number | .text | .boolean | .null | .getVariable => .stop
  | .arithmetic | .comparison => .inOrder ["A", "B"]
  | .logic => .ask "A" fun a => if leavesOpen h a then .inOrder ["B"] else .stop
  | .negation => .inOrder ["BOOL"]
  | .join => .inOrder (Plan.numbered "ADD" (h.count "itemCount") 0)
  | .setVariable | .setGlobal | .logTag => .inOrder ["VALUE"]
  | .branches =>
    branchPlan (if h.flag "hasElse" then ["ELSE"] else []) (h.count "elseIfCount" + 1) 0
  | .repetition =>
    if Entries.binds "TIMES" h.fields then bodyPlan (h.fieldNumber "TIMES")
    else .ask "TIMES" fun times => times.elim .stop fun v => bodyPlan v.toNumber
  | .scope => .inOrder ["DO"]
  | .failure => .inOrder ["MESSAGE"]
  | .siteCall => .inOrder (Plan.numbered "ARG" (h.count "argCount") 0)
  | .childScript => .inOrder ["INPUT"]

end Stock

namespace Block

/-- The slots that a standard block reads. -/
def plan (b : Block Stock) : Plan :=
  b.header.behavior.plan b.header

/-- The blocks of the chain that starts here. -/
def chain {β : Type} : Block β → List (Block β)
  | .mk h inputs none => [.mk h inputs none]
  | .mk h inputs (some c) => .mk h inputs (some c) :: c.chain

/-- The second block is in a chain that is plugged into the first. -/
def Holds (b c : Block Stock) : Prop :=
  ∃ slot first, b.input? slot = some first ∧ c ∈ first.chain

theorem self_mem_chain {β : Type} (b : Block β) : b ∈ b.chain := by
  obtain ⟨h, inputs, next⟩ := b
  cases next <;> simp [chain]

theorem mem_chain_of_next {β : Type} {b c d : Block β} (after : b.next = some c)
    (mem : d ∈ c.chain) : d ∈ b.chain := by
  obtain ⟨h, inputs, next⟩ := b
  cases after
  exact List.mem_cons_of_mem _ mem

end Block

/-- An interception. -/
abbrev Stop := StopReason × Block Stock

/-- What a block's own evaluation comes to and what is told meanwhile, after what was told
before. -/
abbrev Account := List Stop → Block Stock → Except Interruption Value → List Stop → Prop

mutual

/-- What is told while a chain is evaluated to a value. -/
inductive Trace (account : Account) : List Stop → Block Stock → Value → List Stop → Prop
  | last {past : List Stop} {b : Block Stock} {v : Value} {rs : List Reading} {T : List Stop}
      (alone : b.next = none) (reads : b.plan.Leads rs .stop)
      (inside : Inside account (past ++ [(.enter, b)]) b.inputs rs T)
      (own : account (past ++ [(.enter, b)]) b (.ok v) T) :
      Trace account past b v ((.enter, b) :: T ++ [(.leave, b)])
  | next {past : List Stop} {b c : Block Stock} {u v : Value} {rs : List Reading}
      {T U : List Stop} (after : b.next = some c) (reads : b.plan.Leads rs .stop)
      (inside : Inside account (past ++ [(.enter, b)]) b.inputs rs T)
      (own : account (past ++ [(.enter, b)]) b (.ok u) T)
      (rest : Trace account (past ++ ((.enter, b) :: T ++ [(.leave, b)])) c v U) :
      Trace account past b v ((.enter, b) :: T ++ (.leave, b) :: U)

/-- What is told while slots are read. -/
inductive Inside (account : Account) :
    List Stop → List (String × Block Stock) → List Reading → List Stop → Prop
  | nil (past : List Stop) (inputs : List (String × Block Stock)) : Inside account past inputs [] []
  | plugged {past : List Stop} {inputs : List (String × Block Stock)} {slot : String}
      {c : Block Stock} {v : Value} {rs : List Reading} {T U : List Stop}
      (found : Entries.value? slot inputs = some c) (chain : Trace account past c v T)
      (rest : Inside account (past ++ T) inputs rs U) :
      Inside account past inputs ((slot, some v) :: rs) (T ++ U)
  | unplugged {past : List Stop} {inputs : List (String × Block Stock)} {slot : String}
      {rs : List Reading} {U : List Stop} (missing : Entries.value? slot inputs = none)
      (rest : Inside account past inputs rs U) : Inside account past inputs ((slot, none) :: rs) U

end

/-- A block broke off: its own evaluation came to no value, although all it had read did. -/
def Raised (account : Account) (past : List Stop) (b : Block Stock) (i : Interruption)
    (T : List Stop) : Prop :=
  ∃ rs rest, b.plan.Leads rs rest ∧ Inside account past b.inputs rs T ∧
    account past b (.error i) T

/-- What is told while a chain is evaluated to an interruption, with the blocks that were entered
and not left, from the outermost to the one that broke off. -/
inductive Broken (account : Account) :
    List Stop → Block Stock → Interruption → List (Block Stock) → List Stop → Prop
  | own {past : List Stop} {b : Block Stock} {i : Interruption} {T : List Stop}
      (raised : Raised account (past ++ [(.enter, b)]) b i T) :
      Broken account past b i [b] ((.enter, b) :: T)
  | input {past : List Stop} {b c : Block Stock} {i : Interruption} {path : List (Block Stock)}
      {T U : List Stop} {rs : List Reading} {slot : String} {go : Option Value → Plan}
      (reads : b.plan.Leads rs (.ask slot go))
      (inside : Inside account (past ++ [(.enter, b)]) b.inputs rs T)
      (found : Entries.value? slot b.inputs = some c)
      (failed : Broken account (past ++ (.enter, b) :: T) c i path U) :
      Broken account past b i (b :: path) ((.enter, b) :: T ++ U)
  | next {past : List Stop} {b c : Block Stock} {i : Interruption} {path : List (Block Stock)}
      {T U : List Stop} {u : Value} {rs : List Reading} (after : b.next = some c)
      (reads : b.plan.Leads rs .stop)
      (inside : Inside account (past ++ [(.enter, b)]) b.inputs rs T)
      (own : account (past ++ [(.enter, b)]) b (.ok u) T)
      (failed : Broken account (past ++ ((.enter, b) :: T ++ [(.leave, b)])) c i path U) :
      Broken account past b i path ((.enter, b) :: T ++ (.leave, b) :: U)

/-- The blocks that were entered and not left, from the outermost in. Only the innermost of them can
be left. -/
inductive Pending : List Stop → List (Block Stock) → Prop
  | nil : Pending [] []
  | enter {T : List Stop} {path : List (Block Stock)} (b : Block Stock) (before : Pending T path) :
      Pending (T ++ [(.enter, b)]) (path ++ [b])
  | leave {T : List Stop} {path : List (Block Stock)} {b : Block Stock}
      (before : Pending T (path ++ [b])) : Pending (T ++ [(.leave, b)]) path

section
variable {account : Account}

mutual

/-- A whole trace leaves what it enters. -/
theorem Trace.pending {past : List Stop} {b : Block Stock} {v : Value} {U : List Stop} :
    Trace account past b v U → ∀ {T path}, Pending T path → Pending (T ++ U) path
  | .last (b := b) _ _ inside _, T, path, before => by
    have body := inside.pending (before.enter b)
    simpa using body.leave
  | .next (b := b) _ _ inside _ rest, T, path, before => by
    have body := inside.pending (before.enter b)
    simpa using rest.pending body.leave

theorem Inside.pending {past : List Stop} {inputs : List (String × Block Stock)}
    {rs : List Reading} {U : List Stop} :
    Inside account past inputs rs U → ∀ {T path}, Pending T path → Pending (T ++ U) path
  | .nil _ _, T, path, before => by simpa using before
  | .plugged _ chain rest, T, path, before => by
    simpa using rest.pending (chain.pending before)
  | .unplugged _ rest, T, path, before => rest.pending before

end

theorem Inside.append {past : List Stop} {inputs : List (String × Block Stock)}
    {rs qs : List Reading} {T U : List Stop} :
    Inside account past inputs rs T → Inside account (past ++ T) inputs qs U →
      Inside account past inputs (rs ++ qs) (T ++ U)
  | .nil _ _, second => by simpa using second
  | .plugged found chain rest, second => by
    rw [List.append_assoc]
    exact .plugged found chain (rest.append (by simpa using second))
  | .unplugged missing rest, second => .unplugged missing (rest.append second)

namespace Broken

variable {past U : List Stop} {b : Block Stock} {i : Interruption} {path : List (Block Stock)}

theorem pending (h : Broken account past b i path U) {T : List Stop} {around : List (Block Stock)}
    (before : Pending T around) : Pending (T ++ U) (around ++ path) := by
  induction h generalizing T around with
  | @own past b i U raised =>
    obtain ⟨rs, rest, _, inside, _⟩ := raised
    simpa using inside.pending (before.enter b)
  | @input past b c i path U V rs slot go reads inside found failed ih =>
    simpa using ih (inside.pending (before.enter b))
  | @next past b c i path U V u rs after reads inside own failed ih =>
    simpa using ih (inside.pending (before.enter b)).leave

/-- The outermost block is in the chain itself, and each next one in a chain plugged into the one
before. -/
theorem path_linked (h : Broken account past b i path U) :
    (∃ outermost ∈ path.head?, outermost ∈ b.chain) ∧ path.IsChain Block.Holds := by
  induction h with
  | @own past b i U raised => exact ⟨⟨b, rfl, b.self_mem_chain⟩, .singleton b⟩
  | @input past b c i path U V rs slot go reads inside found failed ih =>
    obtain ⟨⟨outermost, first, mem⟩, linked⟩ := ih
    refine ⟨⟨b, rfl, b.self_mem_chain⟩, linked.cons fun d hd => ?_⟩
    cases Option.mem_unique first hd
    exact ⟨slot, c, found, mem⟩
  | @next past b c i path U V u rs after reads inside own failed ih =>
    obtain ⟨⟨outermost, first, mem⟩, linked⟩ := ih
    exact ⟨⟨outermost, first, Block.mem_chain_of_next after mem⟩, linked⟩

/-- Nothing is told after an interruption: the trace ends with what the block that broke off had
told. -/
theorem ends_raised (h : Broken account past b i path U) :
    ∃ culprit ∈ path.getLast?, ∃ T V, U = T ++ (.enter, culprit) :: V ∧
      Raised account (past ++ T ++ [(.enter, culprit)]) culprit i V := by
  induction h with
  | @own past b i U raised => exact ⟨b, rfl, [], U, rfl, by simpa using raised⟩
  | @input past b c i path U V rs slot go reads inside found failed ih =>
    obtain ⟨culprit, last, T, V, rfl, raised⟩ := ih
    refine ⟨culprit, ?_, (.enter, b) :: U ++ T, V, by simp, by simpa using raised⟩
    rw [Option.mem_def] at last ⊢
    rw [List.getLast?_cons, last]
    rfl
  | @next past b c i path U V u rs after reads inside own failed ih =>
    obtain ⟨culprit, last, T, V, rfl, raised⟩ := ih
    exact ⟨culprit, last, (.enter, b) :: U ++ (.leave, b) :: T, V, by simp, by simpa using raised⟩

end Broken

end

namespace Account

/-- Whatever the values are. -/
def any : Account :=
  fun _ _ _ _ => True

end Account

section
variable {account : Account}

mutual

theorem Trace.any {past : List Stop} {b : Block Stock} {v : Value} {T : List Stop} :
    Trace account past b v T → Trace .any past b v T
  | .last alone reads inside _ => .last alone reads inside.any trivial
  | .next after reads inside _ rest => .next (u := .null) after reads inside.any trivial rest.any

theorem Inside.any {past : List Stop} {inputs : List (String × Block Stock)} {rs : List Reading}
    {T : List Stop} : Inside account past inputs rs T → Inside .any past inputs rs T
  | .nil past inputs => .nil past inputs
  | .plugged found chain rest => .plugged found chain.any rest.any
  | .unplugged missing rest => .unplugged missing rest.any

end

end

/-- A plan can be carried out when the chains in the slots can. -/
theorem Plan.exists_inside {inputs : List (String × Block Stock)}
    (inner : ∀ slot c, Entries.value? slot inputs = some c → ∀ past, ∃ v T, Trace .any past c v T)
    (plan : Plan) (past : List Stop) :
    ∃ rs T, plan.Leads rs .stop ∧ Inside .any past inputs rs T := by
  induction plan generalizing past with
  | stop => exact ⟨[], [], .here _, .nil _ _⟩
  | ask slot go ih =>
    cases found : Entries.value? slot inputs with
    | none =>
      obtain ⟨rs, T, reads, inside⟩ := ih none past
      exact ⟨_, _, .read reads, .unplugged found inside⟩
    | some c =>
      obtain ⟨v, T, chain⟩ := inner slot c found past
      obtain ⟨rs, U, reads, inside⟩ := ih (some v) (past ++ T)
      exact ⟨_, _, .read reads, .plugged found chain inside⟩

theorem Block.exists_trace (b : Block Stock) : ∀ past, ∃ v T, Trace .any past b v T := by
  induction b using Block.induct with
  | step h inputs next inner after =>
    intro past
    obtain ⟨rs, T, reads, inside⟩ := Plan.exists_inside inner (plan (.mk h inputs next))
      (past ++ [(.enter, .mk h inputs next)])
    cases next with
    | none => exact ⟨.null, _, .last rfl reads inside trivial⟩
    | some c =>
      obtain ⟨v, U, rest⟩ := after c rfl _
      exact ⟨v, _, .next (u := .null) rfl reads inside trivial rest⟩

/-- What a block tells after some readings can go on to a whole trace. -/
theorem Block.exists_completion (b : Block Stock) {past T : List Stop} {rs : List Reading}
    {rest : Plan} (reads : b.plan.Leads rs rest)
    (inside : Inside .any (past ++ [(.enter, b)]) b.inputs rs T) :
    ∃ v U, U ≠ [] ∧ Trace .any past b v ((.enter, b) :: T ++ U) := by
  obtain ⟨qs, V, reads', inside'⟩ := Plan.exists_inside (fun _ c _ => c.exists_trace) rest _
  have whole := reads.append reads'
  have within := inside.append inside'
  cases after : b.next with
  | none =>
    refine ⟨.null, V ++ [(.leave, b)], by simp, ?_⟩
    simpa using Trace.last (v := .null) after whole within trivial
  | some c =>
    obtain ⟨v, W, chain⟩ := c.exists_trace _
    refine ⟨v, V ++ (.leave, b) :: W, by simp, ?_⟩
    simpa using Trace.next (u := .null) after whole within trivial chain

/-- A broken trace is a proper part, from the start, of a whole one. -/
theorem Broken.exists_completion {account : Account} {past T : List Stop} {b : Block Stock}
    {i : Interruption} {path : List (Block Stock)} (h : Broken account past b i path T) :
    ∃ v U, U ≠ [] ∧ Trace .any past b v (T ++ U) := by
  induction h with
  | @own past b i T raised =>
    obtain ⟨rs, rest, reads, inside, _⟩ := raised
    exact b.exists_completion reads inside.any
  | @input past b c i path T V rs slot go reads inside found failed ih =>
    -- First the chain that broke is completed, then the block it is plugged into.
    obtain ⟨v, U, some_left, chain⟩ := ih
    have read : (Plan.ask slot go).Leads [(slot, some v)] (go (some v)) := .read (.here _)
    have one : Inside .any (past ++ (.enter, b) :: T) b.inputs [(slot, some v)] (V ++ U ++ []) :=
      .plugged found chain (.nil _ _)
    have within := inside.any.append (by simpa using one)
    obtain ⟨u, W, -, whole⟩ := b.exists_completion (reads.append read) within
    exact ⟨u, U ++ W, by simp [some_left], by simpa using whole⟩
  | @next past b c i path T V u rs after reads inside own failed ih =>
    obtain ⟨v, U, some_left, chain⟩ := ih
    have whole := Trace.next (u := .null) after reads inside.any trivial chain
    exact ⟨v, U, some_left, by simpa using whole⟩

/-- How what is told ends when a chain comes to no value. -/
structure Interrupted (account : Account) (root : Block Stock) (i : Interruption)
    (path : List (Block Stock)) (T : List Stop) : Prop where
  /-- The blocks of the path were entered and not left. -/
  pending : Pending T path
  rooted : ∃ outermost ∈ path.head?, outermost ∈ root.chain
  linked : path.IsChain Block.Holds
  /-- The innermost block raised the error or crashed, and nothing was told after that. -/
  raised : ∃ culprit ∈ path.getLast?, ∃ before own, T = before ++ (.enter, culprit) :: own ∧
    Raised account (before ++ [(.enter, culprit)]) culprit i own
  /-- A whole trace would have gone on. -/
  proper : ∃ v rest, rest ≠ [] ∧ Trace .any [] root v (T ++ rest)

theorem Broken.interrupted {account : Account} {root : Block Stock} {i : Interruption}
    {path : List (Block Stock)} {T : List Stop} (h : Broken account [] root i path T) :
    Interrupted account root i path T where
  pending := by simpa using h.pending .nil
  rooted := h.path_linked.1
  linked := h.path_linked.2
  raised := by simpa using h.ends_raised
  proper := h.exists_completion

end BlockScript
