import BlockScript.Proofs.Alongside
import BlockScript.Proofs.Crashes
import BlockScript.Proofs.Expressions
import BlockScript.Proofs.Positions
/-!
Extra statements.

An expression put before a node of a script, as a statement of the chain the node is in, is
evaluated whenever a run comes to the node. If it has a value each time, the run goes on as it would
have without it, and nothing about the run tells the two scripts apart.
-/

namespace BlockScript

variable {β δ ε ι α γ : Type}

namespace Block

/-- A chain with another one after its last block. -/
def before : Block β → Block β → Block β
  | .mk h inputs next, c => .mk h inputs (some (beforeNext next c))
where
  beforeNext : Option (Block β) → Block β → Block β
    | none, c => c
    | some n, c => n.before c

/-- A tree with a chain put before the node at a position. -/
def insertAt (e : Block β) : Position → Block β → Block β
  | [], b => e.before b
  | .next :: rest, .mk h inputs next => .mk h inputs (next.map (insertAt e rest))
  | .slot name :: rest, .mk h inputs next =>
    .mk h (inputs.map fun i => if i.1 = name then (i.1, insertAt e rest i.2) else i) next

section Rename

variable (f : β → δ)

mutual

theorem rename_before : (b c : Block β) → (b.before c).rename f = (b.rename f).before (c.rename f)
  | .mk h inputs next, c => by
    have rest := rename_beforeNext next c
    rw [before, rename, rename.renameNext, rest]
    rfl

theorem rename_beforeNext : (next : Option (Block β)) → (c : Block β) →
    (before.beforeNext next c).rename f =
      before.beforeNext (rename.renameNext f next) (c.rename f)
  | none, _ => rfl
  | some n, c => rename_before n c

end

theorem rename_insertAt (e : Block β) (p : Position) (b : Block β) :
    (e.insertAt p b).rename f = (e.rename f).insertAt p (b.rename f) := by
  induction p generalizing b with
  | nil => exact rename_before f e b
  | cons turn rest ih =>
    obtain ⟨h, inputs, next⟩ := b
    cases turn with
    | next =>
      cases next with
      | none => rfl
      | some n =>
        simp only [insertAt, rename, rename.renameNext, Option.map_some, ih]
    | slot name =>
      simp only [insertAt, rename]
      congr 1
      induction inputs with
      | nil => rfl
      | cons i inputs ihs =>
        obtain ⟨slot, b⟩ := i
        simp only [List.map_cons, rename.renameInputs]
        by_cases same : slot = name
        · simp only [same, ↓reduceIte, ih, ihs]
        · simp only [same, ↓reduceIte, ihs]

end Rename

theorem value?_insertSlot (e : Block β) (name slot : String) (rest : Position)
    (inputs : List (String × Block β)) :
    Entries.value? slot
        (inputs.map fun i => if i.1 = name then (i.1, e.insertAt rest i.2) else i) =
      if slot = name then (Entries.value? slot inputs).map (e.insertAt rest)
      else Entries.value? slot inputs := by
  induction inputs with
  | nil => simp [Entries.value?]
  | cons i inputs ih =>
    obtain ⟨n, b⟩ := i
    by_cases here : n = slot
    · subst here
      by_cases same : n = name <;> simp [Entries.value?, same]
    · by_cases same : n = name
      · simpa [Entries.value?, same, here, show ¬name = slot from same ▸ here] using ih
      · simpa [Entries.value?, same, here] using ih

/-- The node at a position of a placed tree goes by that position. -/
theorem position_at? {b : Block β} {start p : Position} {c : Block (β × Position)}
    (found : (b.placed start).at? p = some c) : c.position = start ++ p := by
  induction p generalizing b start with
  | nil =>
    cases found
    cases b
    exact (List.append_nil start).symm
  | cons turn rest ih =>
    obtain ⟨h, inputs, next⟩ := b
    obtain ⟨d, leads, further⟩ := Option.bind_eq_some_iff.mp found
    rw [List.append_cons]
    cases turn with
    | slot name =>
      have plugged : Entries.value? name (placed.placedInputs start inputs) = some d := leads
      rw [value?_placedInputs, Option.map_eq_some_iff] at plugged
      obtain ⟨e, -, rfl⟩ := plugged
      exact ih further
    | next =>
      cases next with
      | none => cases leads
      | some n =>
        cases leads
        exact ih further

end Block

/-- Of the blocks of an expression only those that branch can ask too much. -/
theorem Block.IsExpression.exists_overflowing {e : Block Stock} (expression : e.IsExpression)
    {env : Environment Stock ε} {s : RunState} {w : World ε}
    (crashed : (env.run e.program s w).1.isCrash) :
    ∃ d, e.Contains d ∧ d.header.behavior = .branches ∧
      UInt64.size ≤ d.header.count "elseIfCount" + 1 := by
  obtain ⟨d, inside, ⟨branches, many⟩ | ⟨call, -⟩⟩ := Block.exists_overtaxing crashed
  · exact ⟨d, inside, branches, many⟩
  · have possible := expression d inside
    rw [call] at possible
    cases possible

namespace Environment

/-- A program runs as another one does, if all blocks that the other enters are entered under safe
conditions. -/
def Agrees (env : Environment β ε) (safe : Arrival β ε → Prop) (p q : Program β α) : Prop :=
  ∀ s w, (∀ x ∈ env.arrivals p s w, safe x) → env.run q s w = env.run p s w

variable {env : Environment β ε} {safe : Arrival β ε → Prop}

theorem agrees_refl (p : Program β α) : env.Agrees safe p p :=
  fun _ _ _ => rfl

theorem Agrees.bind {p q : Program β α} {f g : α → Program β γ} (first : env.Agrees safe p q)
    (rest : ∀ a, env.Agrees safe (f a) (g a)) : env.Agrees safe (p >>= f) (q >>= g) := by
  intro s w conditions
  rw [env.arrivals_bind, List.forall_mem_append] at conditions
  obtain ⟨now, later⟩ := conditions
  rw [env.run_bind, env.run_bind, first s w now]
  generalize env.run p s w = x at later
  obtain ⟨ending, t, v⟩ := x
  cases ending with
  | result r =>
    cases r with
    | ok a => exact rest a t v later
    | error e => rfl
  | cut | stuck | crash => rfl

theorem congruence_agrees :
    Program.Congruence (fun _ => env.Agrees safe) fun _ => True where
  done _ := agrees_refl _
  act _ _ := agrees_refl _
  bind := Agrees.bind
  inScope := by
    intro α p q body s w conditions
    rw [env.arrivals_inScope] at conditions
    rw [env.run_inScope, env.run_inScope, body _ _ conditions]

/-- Without a debugger it does not matter which block a stop shows. -/
theorem agrees_stop (unwatched : env.debugger = none) (reason : StopReason) (b d : Block β) :
    env.Agrees safe (Program.perform (.stop reason b)) (Program.perform (.stop reason d)) := by
  intro s w _
  rw [env.run_perform, env.run_perform, perform, perform, unwatched]

theorem agrees_enter (unwatched : env.debugger = none) (b d : Block β) :
    env.Agrees safe (Program.perform .checkAbort >>= fun _ => Program.perform (.stop .enter b))
      (Program.perform .checkAbort >>= fun _ => Program.perform (.stop .enter d)) :=
  (agrees_refl _).bind fun _ => agrees_stop unwatched .enter b d

section

variable [Behavior β]

/-- A chain that stands before another is evaluated first. -/
theorem run_before (unwatched : env.debugger = none) (e c : Block β) (s : RunState) (w : World ε) :
    env.run (e.before c).program s w = env.run (e.program >>= fun _ => c.program) s w := by
  induction e using Block.induct generalizing s w with
  | step h inputs next inner after =>
    have rest (v : Value) (t : RunState) (u : World ε) :
        env.run (Block.before.beforeNext next c).program t u =
          env.run (Block.program.continuation v next >>= fun _ => c.program) t u := by
      cases next with
      | none => rfl
      | some n => exact after n rfl t u
    rw [Block.run_program unwatched, env.run_bind (Block.mk h inputs next).program,
      Block.run_program unwatched, ← env.run_bind, bind_assoc, env.run_bind, env.run_bind]
    simp only [bind_assoc]
    simp only [env.run_bind (Block.own _)]
    simp only [Block.next, ← rest]
    rfl

theorem run_aborted (b : Block β) (s : RunState) {w : World ε}
    (raised : env.aborted w.peers = true) :
    env.run b.program s w = (.result (.error .aborted), s, w) := by
  rw [b.program_eq, env.run_bind, env.run_perform, perform, raised]
  rfl

theorem mem_arrivals_first (b : Block β) (s : RunState) {w : World ε}
    (down : env.aborted w.peers = false) : ⟨b, s, w⟩ ∈ env.arrivals b.program s w := by
  have looked : env.run (Program.perform .checkAbort) s w = (.result (.ok ()), s, w) := by
    rw [env.run_perform, perform, down]
    rfl
  rw [b.program_eq, env.arrivals_bind, looked]
  simp [env.arrivals_bind, env.arrivals_perform, Action.arrival]

/-- A chain that has a value and changes nothing wherever the block behind it would be entered can
stand before that block. Where the signal is raised neither is entered. -/
theorem agrees_before (unwatched : env.debugger = none) {e b : Block β}
    (idle : ∀ s w, safe ⟨b, s, w⟩ → ∃ v, env.run e.program s w = (.result (.ok v), s, w)) :
    env.Agrees safe b.program (e.before b).program := by
  intro s w conditions
  rw [run_before unwatched, env.run_bind]
  cases signal : env.aborted w.peers with
  | true => rw [run_aborted e s signal, run_aborted b s signal]
  | false =>
    obtain ⟨v, ran⟩ := idle s w (conditions _ (mem_arrivals_first b s signal))
    rw [ran]

end

/-- So can it before a node of a tree. -/
theorem agrees_insertAt {env : Environment (Stock × ι) ε} {safe : Arrival (Stock × ι) ε → Prop}
    (unwatched : env.debugger = none) {e : Block (Stock × ι)} (p : Position)
    (b : Block (Stock × ι))
    (idle : ∀ c, b.at? p = some c → ∀ s w, safe ⟨c, s, w⟩ →
      ∃ v, env.run e.program s w = (.result (.ok v), s, w)) :
    env.Agrees safe b.program (e.insertAt p b).program := by
  have c : Program.Congruence (fun _ => env.Agrees safe) fun _ => True := congruence_agrees
  induction p generalizing b with
  | nil => exact agrees_before unwatched (idle b rfl)
  | cons turn rest ih =>
    obtain ⟨h, inputs, next⟩ := b
    have further {d : Block (Stock × ι)} (leads : (Block.mk h inputs next).turn? turn = some d) :
        env.Agrees safe d.program (e.insertAt rest d).program :=
      ih d fun c found => idle c (by rw [Block.at?_cons leads, found])
    refine Block.chain_related c _ _ (agrees_enter unwatched _ _) ?_
      (agrees_stop unwatched .leave _ _) ?_
    · cases turn with
      | next => exact agrees_refl _
      | slot name =>
        refine h.behavior.1.program_related c (fun _ _ _ => agrees_refl _) h ?_ fun _ _ => trivial
        intro slot
        rw [Block.value?_inputPrograms, Block.value?_inputPrograms, Block.value?_insertSlot]
        by_cases same : slot = name
        · subst same
          rw [if_pos rfl]
          cases plugged : Entries.value? slot inputs with
          | none => exact .none
          | some d => exact .some (further plugged)
        · rw [if_neg same]
          cases Entries.value? slot inputs with
          | none => exact .none
          | some d => exact .some (agrees_refl _)
    · cases next with
      | none => cases turn <;> exact .none
      | some n =>
        cases turn with
        | slot name => exact .some (agrees_refl _)
        | next => exact .some (further rfl)

/-- Whenever a block is entered, its state is one that the run passes through. -/
theorem visits_of_mem_arrivals {env : Environment β ε} {p : Program β α} {s : RunState}
    {w : World ε} {x : Arrival β ε} (mem : x ∈ env.arrivals p s w) :
    env.Visits p s w x.state x.world := by
  induction p generalizing s w with
  | done r => cases mem
  | act a resume ih =>
    rw [arrivals] at mem
    obtain now | later := List.mem_append.mp mem
    · cases a with
      | stop reason block =>
        cases reason with
        | enter =>
          cases List.mem_singleton.mp now
          exact .here _ _ _
        | _ => cases now
      | _ => cases now
    · split at later
      · next reply t v performed => exact .later performed (ih reply later)
      · cases later

end Environment

namespace Script

/-- A script with a chain put before one of its nodes. -/
def inserting (script : Script β) (e : Block β) (p : Position) : Script β :=
  { script with root := e.insertAt p script.root }

/-- Without a debugger, all that a run takes from its script beyond the settings is how the root
chain runs. -/
theorem run_congr {script other : Script Stock} {env : Environment Stock ε} {w : World ε}
    (unwatched : env.debugger = none) (settings : other.settings = script.settings)
    (root : env.run other.root.program (script.initial env w) (script.limited w) =
      env.run script.root.program (script.initial env w) (script.limited w)) :
    other.run env w = script.run env w := by
  have initial : other.initial env w = script.initial env w := by
    rw [Script.initial, Script.initial, settings]
  have limited : other.limited w = script.limited w := by
    rw [Script.limited, Script.limited, settings]
  have conclude (x : Ending Value × RunState × World ε) :
      other.conclude x = script.conclude x := by
    simp only [Script.conclude, settings]
  have finish (s : RunState) (v : World ε) :
      other.interceptFinish env s v = script.interceptFinish env s v := by
    simp only [interceptFinish, unwatched]
  rw [run_eq, run_eq, evaluateRoot_eq_conclude, evaluateRoot_eq_conclude, initial, limited,
    conclude, root]
  simp only [finish]

theorem wellFormed_of_mem_arrivals {script : Script Stock} {env : Environment Stock ε}
    {w : World ε} {x : Arrival (Stock × Position) ε} (mem : x ∈ script.arrivals env w) :
    x.state.scopes.WellFormed := by
  have entered : x.rename Prod.fst ∈
      env.arrivals script.root.program (script.initial env w) (script.limited w) := by
    rw [← script.arrivals_unplaced]
    exact List.mem_map_of_mem mem
  exact script.root.program_orderly.visits_wellFormed (script.wellFormed_initial env w)
    (Environment.visits_of_mem_arrivals entered)

/-- An expression that has a value whenever a run comes to a node can stand before it. -/
theorem root_inserting {e : Block Stock} (expression : e.IsExpression) (script : Script Stock)
    (p : Position) {env : Environment Stock ε} {w : World ε} (unwatched : env.debugger = none)
    (succeeds : ∀ x ∈ script.arrivals env w, x.block.position = p →
      ∃ v t u, env.run e.program x.state x.world = (.result (.ok v), t, u)) :
    env.run (script.inserting e p).root.program (script.initial env w) (script.limited w) =
      env.run script.root.program (script.initial env w) (script.limited w) := by
  have silent : (env.shown (Prod.fst : Stock × Position → Stock)).debugger = none := by
    rw [Environment.shown, unwatched]
    rfl
  have placed (b : Block (Stock × Position)) (s : RunState) (u : World ε) :
      (env.shown Prod.fst).run b.program s u = env.run b.unplaced.program s u := by
    rw [← env.run_rename, Block.program_unplaced]
  have idle (x : Arrival (Stock × Position) ε) (entered : x ∈ script.arrivals env w)
      (here : x.block.position = p) :
      ∃ v, env.run e.program x.state x.world = (.result (.ok v), x.state, x.world) := by
    obtain ⟨v, t, u, ran⟩ := succeeds x entered here
    cases signal : env.aborted x.world.peers with
    | true =>
      rw [Environment.run_aborted e x.state signal] at ran
      cases ran
    | false =>
      have ease : env.AtEase x.state x.world :=
        ⟨unwatched, signal, wellFormed_of_mem_arrivals entered⟩
      obtain ⟨-, ⟨r, same, -⟩ | ⟨⟨t', u', same⟩, -⟩⟩ :=
        expression.pure env env _ _ _ _ ease ease (.refl _ _)
      · rw [same] at ran
        cases ran
        exact ⟨v, same⟩
      · rw [same] at ran
        cases ran
  have agrees : (env.shown Prod.fst).Agrees
      (fun x => x.block.position = p →
        ∃ v, env.run e.program x.state x.world = (.result (.ok v), x.state, x.world))
      (script.root.placed []).program
      ((e.placed []).insertAt p (script.root.placed [])).program := by
    refine Environment.agrees_insertAt silent p _ ?_
    intro c found s u safe
    rw [placed, Block.unplaced_placed]
    exact safe (Block.position_at? found)
  have ran := agrees _ _ idle
  rw [placed, placed, Block.unplaced_placed, Block.unplaced, Block.rename_insertAt,
    ← Block.unplaced, ← Block.unplaced, Block.unplaced_placed, Block.unplaced_placed] at ran
  exact ran

end Script

/-- Expressions are pure. Wherever an expression is evaluated without a debugger and with the signal
down, be it to a value or to an error, nothing happens and the run and the world around it are left
as they were, so that evaluating it twice is evaluating it once. It crashes only if one of its
blocks counts too many branches, and then too nothing has happened. What it comes to depends on what
the current frame and the root hold under the names it reads. Put before any node of a script where
it has a value whenever the run comes there, it makes no difference to the run, nor to whether it
crashes. -/
theorem expressions_are_pure {e : Block Stock} (expression : e.IsExpression) :
    (∀ {ε : Type} (env : Environment Stock ε) (s : RunState) (w : World ε), env.AtEase s w →
      ((∃ r, env.run e.program s w = (.result r, s, w)) ∨
        ((env.run e.program s w).1 = .crash ∧
          ∃ d, e.Contains d ∧ d.header.behavior = .branches ∧
            UInt64.size ≤ d.header.count "elseIfCount" + 1)) ∧
      env.history e.program s w = [] ∧
      env.run (e.program >>= fun _ => e.program) s w = env.run e.program s w) ∧
    (∀ {ε ζ : Type} (env : Environment Stock ε) (other : Environment Stock ζ) (s t : RunState)
      (w : World ε) (u : World ζ), env.AtEase s w → other.AtEase t u →
      s.scopes.AgreeOn e.Reads t.scopes →
      (other.run e.program t u).1 = (env.run e.program s w).1) ∧
    (∀ {ε : Type} (script : Script Stock) (env : Environment Stock ε) (w : World ε) (s : RunState)
      (v : World ε),
      env.Visits script.root.program (script.initial env w) (script.limited w) s v →
      env.debugger = none → env.aborted v.peers = false → env.AtEase s v) ∧
    ∀ {ε : Type} (script : Script Stock) (p : Position) (env : Environment Stock ε) (w : World ε),
      env.debugger = none →
      (∀ x ∈ script.arrivals env w, x.block.position = p →
        ∃ v t u, env.run e.program x.state x.world = (.result (.ok v), t, u)) →
      (script.inserting e p).run env w = script.run env w ∧
        (script.inserting e p).crashes env w = script.crashes env w := by
  refine ⟨?_, ?_, ?_, ?_⟩
  · intro ε env s w ease
    obtain ⟨nothing, ⟨r, ran, -⟩ | ⟨⟨t, u, ran⟩, -⟩⟩ :=
      expression.pure env env s s w w ease ease (.refl _ _)
    · refine ⟨.inl ⟨r, ran⟩, nothing, ?_⟩
      rw [env.run_bind, ran]
      cases r with
      | ok v => exact ran
      | error e => rfl
    · have crashed : (env.run e.program s w).1.isCrash := by rw [ran]; rfl
      refine ⟨.inr ⟨by rw [ran], expression.exists_overflowing crashed⟩, nothing, ?_⟩
      rw [env.run_bind, ran]
  · intro ε ζ env other s t w u left right agree
    obtain ⟨-, ⟨r, ran, also⟩ | ⟨⟨s', w', ran⟩, t', u', also⟩⟩ :=
      expression.pure env other s t w u left right agree
    · rw [ran, also]
    · rw [ran, also]
  · intro ε script env w s v visit unwatched down
    exact ⟨unwatched, down, script.root.program_orderly.visits_wellFormed
      (script.wellFormed_initial env w) visit⟩
  · intro ε script p env w unwatched succeeds
    have root := Script.root_inserting expression script p unwatched succeeds
    exact ⟨Script.run_congr unwatched rfl root, congrArg (fun x => x.1.isCrash) root⟩

/-- A variable read in a scope of its own. -/
def peeking : Block Stock :=
  .mk ⟨"controls_scope", none, .scope, [], []⟩ [("DO", reading)] none
where
  reading : Block Stock :=
    .mk ⟨"variables_get", none, .getVariable, [("VAR", .string "x")], []⟩ [] none

/-- A variable is set and then read. -/
def noting : Block Stock :=
  .mk ⟨"variables_set", none, .setVariable, [("VAR", .string "x")], []⟩
    [("VALUE", .mk ⟨"text", none, .text, [("TEXT", .string "a")], []⟩ [] none)]
    (some peeking.reading)

/-- Between the two blocks, a look at the variable makes no difference. -/
theorem peeking_between_makes_no_difference :
    let env : Environment Stock Unit := .alone (.bare [])
    let w : World Unit := { peers := (), origin := ⟨0, 0⟩ }
    let script : Script Stock := ⟨noting, {}⟩
    (script.inserting peeking [.next]).run env w = script.run env w ∧
      (script.run env w).map (fun r => r.1.value) = some (some (.string "a")) := by
  intro env w script
  refine ⟨?_, rfl⟩
  have expression : peeking.IsExpression := by
    simp [peeking, peeking.reading, Block.isExpression_mk_iff, Entries.value?_cons,
      Stock.isExpression]
  obtain ⟨a, b, c, nodes, first, value, last, ran⟩ : ∃ a b c,
      script.arrivals env w = [a, b, c] ∧ a.block.position = [] ∧
      b.block.position = [.slot "VALUE"] ∧ c.block.position = [.next] ∧
      env.run peeking.program c.state c.world = (.result (.ok (.string "a")), c.state, c.world) :=
    ⟨_, _, _, rfl, rfl, rfl, rfl, rfl⟩
  obtain ⟨-, -, -, insert⟩ := expressions_are_pure expression
  refine (insert script [.next] env w rfl ?_).1
  rw [nodes]
  intro x entered here
  simp only [List.mem_cons, List.not_mem_nil, or_false] at entered
  obtain rfl | rfl | rfl := entered
  · simp [first] at here
  · simp [value] at here
  · exact ⟨_, _, _, ran⟩

end BlockScript
