import BlockScript.Proofs.Renaming
/-!
The nodes of a tree, and when a run comes to them.

Two nodes of a tree may hold equal blocks, so a node is known by its position: the turns that lead
to it. A tree is placed by letting each block go by its position beside its behaviour. The placed
tree runs as the tree does, and tells for every block that is entered which node it is.
-/

namespace BlockScript

variable {β δ ε α γ ι : Type}

/-- From a block to the first one in a slot, or to the one after it. -/
inductive Turn where
  | slot (name : String)
  | next
  deriving DecidableEq, Repr

/-- Where a node lies: the turns to it from the first block of the root chain. -/
abbrev Position := List Turn

namespace Block

/-- The block a turn leads to. -/
def turn? (b : Block β) : Turn → Option (Block β)
  | .slot name => b.input? name
  | .next => b.next

/-- The node at a position. -/
def at? : Block β → Position → Option (Block β)
  | b, [] => some b
  | b, turn :: rest => (b.turn? turn).bind fun c => c.at? rest

theorem at?_cons {b c : Block β} {turn : Turn} (leads : b.turn? turn = some c) (rest : Position) :
    b.at? (turn :: rest) = c.at? rest := by
  simp [at?, leads]

theorem at?_append (b : Block β) (p q : Position) :
    b.at? (p ++ q) = (b.at? p).bind fun c => c.at? q := by
  induction p generalizing b with
  | nil => rfl
  | cons turn rest ih =>
    rw [List.cons_append]
    cases leads : b.turn? turn with
    | none => simp [at?, leads]
    | some c => rw [at?_cons leads, at?_cons leads, ih]

/-- The tree whose first block is at a position, with the position of every block. -/
def placed (p : Position) : Block β → Block (β × Position)
  | .mk h inputs next =>
    .mk (h.rename fun b => (b, p)) (placedInputs p inputs) (placedNext p next)
where
  placedInputs (p : Position) : List (String × Block β) → List (String × Block (β × Position))
    | [] => []
    | (slot, b) :: rest => (slot, b.placed (p ++ [.slot slot])) :: placedInputs p rest
  placedNext (p : Position) : Option (Block β) → Option (Block (β × Position))
    | none => none
    | some b => some (b.placed (p ++ [.next]))

/-- What a placed block is without its position. -/
def unplaced (b : Block (β × ι)) : Block β :=
  b.rename Prod.fst

def position (b : Block (β × Position)) : Position :=
  b.header.behavior.2

mutual

theorem unplaced_placed : (b : Block β) → (p : Position) → (b.placed p).unplaced = b
  | .mk h inputs next, p => by
    have ins := unplaced_placedInputs inputs p
    have after := unplaced_placedNext next p
    simp only [unplaced, placed, rename, ins, after]
    rfl

theorem unplaced_placedInputs : (inputs : List (String × Block β)) → (p : Position) →
    rename.renameInputs Prod.fst (placed.placedInputs p inputs) = inputs
  | [], _ => rfl
  | (slot, b) :: rest, p => by
    have first := unplaced_placed b (p ++ [.slot slot])
    have ih := unplaced_placedInputs rest p
    rw [unplaced] at first
    rw [placed.placedInputs, rename.renameInputs, first, ih]

theorem unplaced_placedNext : (next : Option (Block β)) → (p : Position) →
    rename.renameNext Prod.fst (placed.placedNext p next) = next
  | none, _ => rfl
  | some b, p => by
    have first := unplaced_placed b (p ++ [.next])
    rw [unplaced] at first
    rw [placed.placedNext, rename.renameNext, first]

end

theorem value?_placedInputs (p : Position) (slot : String) (inputs : List (String × Block β)) :
    Entries.value? slot (placed.placedInputs p inputs) =
      (Entries.value? slot inputs).map (placed (p ++ [.slot slot])) := by
  induction inputs with
  | nil => rfl
  | cons e rest ih =>
    obtain ⟨n, b⟩ := e
    by_cases same : n = slot
    · simp [placed.placedInputs, Entries.value?, same]
    · simpa [placed.placedInputs, Entries.value?, same] using ih

end Block

/-- Standard behaviours that carry something else besides behave as before. -/
instance : Behavior (Stock × ι) := ⟨fun k => k.1.program⟩

namespace Block

open Program

mutual

/-- Without positions, the program of a placed tree is that of the tree. -/
theorem program_unplaced : (b : Block (Stock × ι)) →
    b.program.rename Prod.fst = b.unplaced.program
  | .mk h inputs next => by
    have ins := inputPrograms_unplaced inputs
    have after (v : Value) := continuation_unplaced v next
    simp only [unplaced, program, rename, rename_bind, after]
    rw [show Behavior.program h.behavior h (program.inputPrograms inputs) =
      h.behavior.1.program h (program.inputPrograms inputs) from rfl, Stock.program_rename, ins]
    rfl

theorem inputPrograms_unplaced : (inputs : List (String × Block (Stock × ι))) →
    (program.inputPrograms inputs).rename Prod.fst =
      program.inputPrograms (rename.renameInputs Prod.fst inputs)
  | [] => rfl
  | (slot, b) :: rest => by
    have first := program_unplaced b
    have ih := inputPrograms_unplaced rest
    rw [program.inputPrograms, rename.renameInputs, program.inputPrograms, ← ih]
    exact congrArg (fun p => (slot, p) :: _) first

theorem continuation_unplaced (v : Value) : (next : Option (Block (Stock × ι))) →
    (program.continuation v next).rename Prod.fst =
      program.continuation v (rename.renameNext Prod.fst next)
  | none => rfl
  | some b => program_unplaced b

end

end Block

/-- A block that is about to be entered, and when. -/
structure Arrival (β ε : Type) where
  block : Block β
  state : RunState
  world : World ε

/-- The block an action enters, if it enters one. -/
def Action.arrival (a : Action β) (s : RunState) (w : World ε) : List (Arrival β ε) :=
  match a with
  | .stop .enter block => [⟨block, s, w⟩]
  | _ => []

namespace Environment

variable (env : Environment β ε)

/-- The blocks a program enters, in order. -/
def arrivals : Program β α → RunState → World ε → List (Arrival β ε)
  | .done _, _, _ => []
  | .act a resume, s, w =>
    a.arrival s w ++
      match env.perform a s w with
      | (.result reply, s, w) => arrivals (resume reply) s w
      | _ => []

theorem arrivals_perform (a : Action β) (s : RunState) (w : World ε) :
    env.arrivals (Program.perform a) s w = a.arrival s w := by
  simp only [Program.perform, arrivals]
  split <;> simp

theorem arrivals_bind (p : Program β α) (f : α → Program β γ) (s : RunState) (w : World ε) :
    env.arrivals (p >>= f) s w =
      env.arrivals p s w ++
        match env.run p s w with
        | (.result (.ok a), t, v) => env.arrivals (f a) t v
        | _ => [] := by
  change env.arrivals (p.bind f) s w = _
  induction p generalizing s w with
  | done r => cases r <;> simp [Program.bind, arrivals, run]
  | act a resume ih =>
    simp only [Program.bind, arrivals, run, List.append_assoc]
    obtain ⟨ending, t, v⟩ := env.perform a s w
    cases ending with
    | result reply => exact congrArg (a.arrival s w ++ ·) (ih reply t v)
    | cut | stuck | crash => simp

theorem arrivals_closing (previous : Nat) (p : Program β α) (s : RunState) (w : World ε) :
    env.arrivals (p.closing previous) s w = env.arrivals p s w := by
  induction p generalizing s w with
  | done r => rfl
  | act a resume ih =>
    simp only [Program.closing, arrivals]
    obtain ⟨ending, t, v⟩ := env.perform a s w
    cases ending with
    | result reply => exact congrArg (a.arrival s w ++ ·) (ih reply t v)
    | cut | stuck | crash => rfl

theorem arrivals_inScope (p : Program β α) (s : RunState) (w : World ε) :
    env.arrivals p.inScope s w =
      env.arrivals p { s with scopes := s.scopes.openScope } w := by
  rw [Program.inScope, arrivals_bind, arrivals_perform]
  exact env.arrivals_closing s.scopes.current p _ w

end Environment

def Arrival.rename (f : β → δ) (x : Arrival β ε) : Arrival δ ε :=
  ⟨x.block.rename f, x.state, x.world⟩

namespace Environment

variable (env : Environment δ ε) (f : β → δ)

theorem arrivals_act (env : Environment β ε) (a : Action β)
    (resume : Except ScriptError a.Reply → Program β α) (s : RunState) (w : World ε) :
    env.arrivals (.act a resume) s w = a.arrival s w ++
      follow (fun reply => env.arrivals (resume reply)) (fun _ _ => []) (fun _ _ => [])
        (fun _ _ => []) (env.perform a s w) := by
  rw [arrivals]
  rcases env.perform a s w with ⟨_ | _ | _ | _, t, v⟩ <;> rfl

theorem follow_map {R Y Z : Type} (g : Y → Z) (next : Except ScriptError R → RunState → World ε → Y)
    (cut stuck crash : RunState → World ε → Y) (x : Ending R × RunState × World ε) :
    g (follow next cut stuck crash x) =
      follow (fun reply s w => g (next reply s w)) (fun s w => g (cut s w))
        (fun s w => g (stuck s w)) (fun s w => g (crash s w)) x := by
  rcases x with ⟨_ | _ | _ | _, t, v⟩ <;> rfl

theorem arrivals_rename (p : Program β α) (s : RunState) (w : World ε) :
    env.arrivals (p.rename f) s w = ((env.shown f).arrivals p s w).map (Arrival.rename f) := by
  induction p generalizing s w with
  | done r => rfl
  | act a resume ih =>
    have here : (a.rename f).arrival s w = (a.arrival s w).map (Arrival.rename (ε := ε) f) := by
      cases a with
      | stop reason block => cases reason <;> rfl
      | _ => rfl
    have same (reply : Except ScriptError a.Reply) : env.arrivals ((resume reply).rename f) =
        fun s w => ((env.shown f).arrivals (resume reply) s w).map (Arrival.rename f) :=
      funext fun s => funext fun w => ih reply s w
    simp only [Program.rename, arrivals_act, same, List.map_append, here]
    rw [follow_map (List.map (Arrival.rename f))]
    exact congrArg ((a.arrival s w).map (Arrival.rename f) ++ ·) (env.follow_rename f a s w
      (fun reply s w => ((env.shown f).arrivals (resume reply) s w).map (Arrival.rename f)) _ _ _)

end Environment

namespace Script

/-- The nodes that a run of a script enters, in order. -/
def arrivals (script : Script Stock) (env : Environment Stock ε) (w : World ε) :
    List (Arrival (Stock × Position) ε) :=
  (env.shown Prod.fst).arrivals (script.root.placed []).program (script.initial env w)
    (script.limited w)

/-- Without positions, these are the blocks that the root chain enters. -/
theorem arrivals_unplaced (script : Script Stock) (env : Environment Stock ε) (w : World ε) :
    (script.arrivals env w).map (Arrival.rename Prod.fst) =
      env.arrivals script.root.program (script.initial env w) (script.limited w) := by
  rw [arrivals, ← env.arrivals_rename, Block.program_unplaced, Block.unplaced_placed]

end Script

end BlockScript
