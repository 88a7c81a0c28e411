import BlockScript.Proofs.Lifecycle
import BlockScript.Proofs.Composition
/-!
Blocks whose behaviours go by other names.

The program of a standard block does not look at behaviours, it only hands blocks to the debugger.
So renaming the behaviours in a tree renames the blocks in its program and nothing else, and a
debugger that is shown the renamed blocks makes the same run of both.
-/

namespace BlockScript

variable {β δ ε α γ : Type}

def Header.rename (f : β → δ) (h : Header β) : Header δ where
  kind := h.kind
  id := h.id
  behavior := f h.behavior
  fields := h.fields
  mutations := h.mutations

def Block.rename (f : β → δ) : Block β → Block δ
  | .mk h inputs next => .mk (h.rename f) (renameInputs inputs) (renameNext next)
where
  renameInputs : List (String × Block β) → List (String × Block δ)
    | [] => []
    | (slot, b) :: rest => (slot, b.rename f) :: renameInputs rest
  renameNext : Option (Block β) → Option (Block δ)
    | none => none
    | some b => some (b.rename f)

namespace Action

/-- Only the debugger is shown blocks. -/
def rename (f : β → δ) : Action β → Action δ
  | .checkAbort => .checkAbort
  | .stop reason block => .stop reason (block.rename f)
  | .lookup name => .lookup name
  | .assign name value => .assign name value
  | .assignGlobal name value => .assignGlobal name value
  | .openScope => .openScope
  | .openRootScope => .openRootScope
  | .closeScope previous => .closeScope previous
  | .attach modifier => .attach modifier
  | .call service args => .call service args
  | .spawn name presets => .spawn name presets
  | .wait milliseconds => .wait milliseconds
  | .sleep milliseconds => .sleep milliseconds
  | .scopeDepth => .scopeDepth
  | .readLog => .readLog
  | .reserve count => .reserve count
  | .crash => .crash

theorem reply_rename (f : β → δ) (a : Action β) : (a.rename f).Reply = a.Reply := by
  cases a <;> rfl

end Action

namespace Program

def rename (f : β → δ) : Program β α → Program δ α
  | .done result => .done result
  | .act a resume => .act (a.rename f) fun reply =>
    (resume (cast (congrArg (Except ScriptError) (a.reply_rename f)) reply)).rename f

variable (f : β → δ)

theorem rename_bind (p : Program β α) (g : α → Program β γ) :
    (p >>= g).rename f = p.rename f >>= fun a => (g a).rename f := by
  change (p.bind g).rename f = (p.rename f).bind fun a => (g a).rename f
  induction p with
  | done r => cases r <;> rfl
  | act a resume ih =>
    simp only [Program.bind, rename]
    exact congrArg (Program.act (a.rename f)) (funext fun reply => ih _)

theorem rename_closing (previous : Nat) (p : Program β α) :
    (p.closing previous).rename f = (p.rename f).closing previous := by
  induction p with
  | done r => rfl
  | act a resume ih =>
    simp only [closing, rename]
    exact congrArg (Program.act (a.rename f)) (funext fun reply => ih _)

theorem rename_inScope (p : Program β α) : p.inScope.rename f = (p.rename f).inScope := by
  rw [inScope, rename_bind]
  exact congrArg (perform .openScope >>= ·) (funext fun previous => rename_closing f previous p)

theorem rename_lift (r : Except ScriptError α) :
    (liftM r : Program β α).rename f = liftM r := rfl

theorem rename_crash : (crash : Program β α).rename f = crash := by
  rw [crash, rename_bind]
  exact congrArg (perform .crash >>= ·) (funext fun never => never.elim)

end Program

/-- Inputs whose programs show renamed blocks. -/
def Inputs.rename (f : β → δ) (inputs : Inputs β) : Inputs δ :=
  inputs.map fun e => (e.1, e.2.rename f)

namespace Inputs

open Program

variable (f : β → δ) (inputs : Inputs β)

theorem value?_rename (slot : String) :
    Entries.value? slot (inputs.rename f) =
      (Entries.value? slot inputs).map (Program.rename f) := by
  induction inputs with
  | nil => rfl
  | cons e rest ih =>
    obtain ⟨n, p⟩ := e
    by_cases same : n = slot
    · simp [rename, Entries.value?, same]
    · simpa [rename, Entries.value?, same] using ih

theorem required_rename (h : Header β) (slot : String) :
    (inputs.required h slot).rename f = (inputs.rename f).required (h.rename f) slot := by
  simp only [required, value?_rename]
  cases Entries.value? slot inputs <;> rfl

theorem optional_rename (slot : String) :
    (inputs.optional slot).rename f = (inputs.rename f).optional slot := by
  simp only [optional, value?_rename]
  cases Entries.value? slot inputs with
  | none => rfl
  | some p => exact rename_bind f p _

theorem statements_rename (slot : String) :
    (inputs.statements slot).rename f = (inputs.rename f).statements slot := by
  simp only [statements, value?_rename]
  cases Entries.value? slot inputs <;> rfl

end Inputs

namespace Kinds

open Program Inputs

variable (f : β → δ) (h : Header β) (inputs : Inputs β)

theorem joinItems_rename (count index : Nat) :
    (joinItems inputs count index).rename f = joinItems (inputs.rename f) count index := by
  induction count generalizing index with
  | zero => rfl
  | succ count ih =>
    simp only [joinItems, rename_bind, optional_rename, ih]
    rfl

theorem slotValues_rename (name : String) (count index : Nat) :
    (slotValues h inputs name count index).rename f =
      slotValues (h.rename f) (inputs.rename f) name count index := by
  induction count generalizing index with
  | zero => rfl
  | succ count ih =>
    simp only [slotValues, rename_bind, required_rename, ih]
    rfl

theorem branch_rename (otherwise : Program β Value) (count index : Nat) :
    (branch inputs otherwise count index).rename f =
      branch (inputs.rename f) (otherwise.rename f) count index := by
  induction count generalizing index with
  | zero => rfl
  | succ count ih =>
    simp only [branch, rename_bind, optional_rename]
    congr 1
    funext condition
    split
    · exact statements_rename f inputs _
    · exact ih (index + 1)

theorem ifBlock_rename :
    (ifBlock h inputs).rename f = ifBlock (h.rename f) (inputs.rename f) := by
  have same : (if h.flag "hasElse" then inputs.statements "ELSE" else pure .null).rename f =
      if h.flag "hasElse" then (inputs.rename f).statements "ELSE" else pure .null := by
    split
    · exact statements_rename f inputs "ELSE"
    · rfl
  have count : (h.rename f).count "elseIfCount" = h.count "elseIfCount" := rfl
  have flag : (h.rename f).flag "hasElse" = h.flag "hasElse" := rfl
  simp only [ifBlock, count, flag]
  split
  · rw [branch_rename, same]
  · exact rename_crash f

theorem iterate_rename (times : Nat) (last : Value) :
    (iterate inputs times last).rename f = iterate (inputs.rename f) times last := by
  induction times generalizing last with
  | zero => rfl
  | succ times ih =>
    simp only [iterate, rename_bind, rename_inScope, statements_rename, ih]
    rfl

theorem logicBlock_rename :
    (logicBlock h inputs).rename f = logicBlock (h.rename f) (inputs.rename f) := by
  have second : (logicBlock.second h inputs).rename f =
      logicBlock.second (h.rename f) (inputs.rename f) := by
    simp only [logicBlock.second, rename_bind, required_rename]
    rfl
  simp only [logicBlock, rename_bind, required_rename, rename_lift]
  congr 1
  funext op
  congr 1
  funext a
  split
  · split
    · exact second
    · rfl
  · split
    · rfl
    · exact second
  · rfl

theorem repeatBlock_rename :
    (repeatBlock h inputs).rename f = repeatBlock (h.rename f) (inputs.rename f) := by
  have same : (h.rename f).fields = h.fields := rfl
  unfold repeatBlock
  rw [same]
  split
  · simp only [rename_bind, iterate_rename]
    rfl
  · simp only [rename_bind, required_rename, iterate_rename]
    rfl

end Kinds

open Program Inputs Kinds in
/-- Renaming the behaviours of a block and its inputs renames them in its program. -/
theorem Stock.program_rename (f : β → δ) (k : Stock) (h : Header β) (inputs : Inputs β) :
    (k.program h inputs).rename f = k.program (h.rename f) (inputs.rename f) := by
  cases k with
  | boolean | null => rfl
  | number | text =>
    simp only [program, rename_bind]
    rfl
  | getVariable =>
    simp only [program, getBlock, rename_bind]
    rfl
  | arithmetic =>
    simp only [program, arithmeticBlock, rename_bind, required_rename]
    rfl
  | comparison =>
    simp only [program, comparisonBlock, rename_bind, required_rename]
    rfl
  | logic => exact logicBlock_rename f h inputs
  | negation =>
    simp only [program, negationBlock, rename_bind, required_rename]
    rfl
  | join =>
    simp only [program, joinBlock, rename_bind, joinItems_rename]
    rfl
  | setVariable =>
    simp only [program, setBlock, rename_bind, required_rename]
    rfl
  | setGlobal =>
    simp only [program, setGlobalBlock, rename_bind, required_rename]
    rfl
  | branches => exact ifBlock_rename f h inputs
  | repetition => exact repeatBlock_rename f h inputs
  | scope =>
    simp only [program, scopeBlock, rename_inScope, statements_rename]
  | failure =>
    simp only [program, failBlock, rename_bind, optional_rename]
    rfl
  | siteCall =>
    simp only [program, callBlock, callSite, rename_bind, slotValues_rename]
    rfl
  | childScript =>
    simp only [program, childBlock, rename_bind, optional_rename, spawnChild]
    rfl
  | logTag =>
    simp only [program, tagBlock, rename_bind, required_rename]
    rfl

namespace Environment

/-- The environment whose debugger is shown renamed blocks. -/
def shown (env : Environment δ ε) (f : β → δ) : Environment β ε where
  site := env.site
  debugger := env.debugger.map fun d =>
    { intercept := fun reason block => d.intercept reason (block.rename f)
      finished := d.finished }
  aborted := env.aborted
  abort := env.abort
  react := env.react

variable (env : Environment δ ε) (f : β → δ)

/-- An action and its renamed twin do the same. -/
theorem perform_rename (a : Action β) (s : RunState) (w : World ε) :
    HEq (env.perform (a.rename f) s w) ((env.shown f).perform a s w) := by
  cases a with
  | stop reason block =>
    obtain ⟨site, debugger, aborted, abort, react⟩ := env
    cases debugger <;> rfl
  | _ => rfl

/-- What is made of the end of an action: one thing of a reply, another if there is none. -/
def follow {R Z : Type} (next : Except ScriptError R → RunState → World ε → Z)
    (cut stuck crash : RunState → World ε → Z) : Ending R × RunState × World ε → Z
  | (.result reply, s, w) => next reply s w
  | (.cut, s, w) => cut s w
  | (.stuck, s, w) => stuck s w
  | (.crash, s, w) => crash s w

theorem follow_rename {Z : Type} (a : Action β) (s : RunState) (w : World ε)
    (next : Except ScriptError a.Reply → RunState → World ε → Z)
    (cut stuck crash : RunState → World ε → Z) :
    follow (fun reply => next (cast (congrArg (Except ScriptError) (a.reply_rename f)) reply))
      cut stuck crash (env.perform (a.rename f) s w) =
      follow next cut stuck crash ((env.shown f).perform a s w) := by
  have same := env.perform_rename f a s w
  generalize env.perform (a.rename f) s w = x at same
  generalize (env.shown f).perform a s w = y at same
  generalize a.reply_rename f = types
  revert x
  generalize (a.rename f).Reply = R at types
  subst types
  rintro x ⟨⟩
  rfl

theorem run_act (env : Environment β ε) (a : Action β)
    (resume : Except ScriptError a.Reply → Program β α) (s : RunState) (w : World ε) :
    env.run (.act a resume) s w =
      follow (fun reply => env.run (resume reply)) (fun s w => (.cut, s, w))
        (fun s w => (.stuck, s, w)) (fun s w => (.crash, s, w)) (env.perform a s w) := by
  rw [run]
  rcases env.perform a s w with ⟨_ | _ | _ | _, t, v⟩ <;> rfl

/-- A renamed program runs as the program does where its blocks are shown renamed. -/
theorem run_rename (p : Program β α) (s : RunState) (w : World ε) :
    env.run (p.rename f) s w = (env.shown f).run p s w := by
  induction p generalizing s w with
  | done r => rfl
  | act a resume ih =>
    have same (reply : Except ScriptError a.Reply) :
        env.run ((resume reply).rename f) = (env.shown f).run (resume reply) :=
      funext fun s => funext fun w => ih reply s w
    simp only [Program.rename, run_act, same]
    exact env.follow_rename f a s w (fun reply => (env.shown f).run (resume reply)) _ _ _

end Environment

end BlockScript
