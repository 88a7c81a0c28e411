import Mathlib.Algebra.Order.Ring.Nat
import Mathlib.Data.List.Nodup
import BlockScript.Proofs.Positions
import BlockScript.Proofs.Traces
/-!
How often the nodes of a tree are entered.

A block reads each of its slots at most once, but for the body of a repetition, which it runs as
often as it has computed. Counts add up along a run: what a sequence enters is what its parts enter.
-/

namespace BlockScript

variable {ε α γ : Type}

/-- How often a node is among the blocks entered. -/
def entriesAt (q : Position) (seen : List (Arrival (Stock × Position) ε)) : Nat :=
  seen.countP fun x => x.block.position = q

theorem entriesAt_append (q : Position) (seen more : List (Arrival (Stock × Position) ε)) :
    entriesAt q (seen ++ more) = entriesAt q seen + entriesAt q more :=
  List.countP_append

namespace Program

/-- A program enters a node at most so many times. -/
def Enters (env : Environment (Stock × Position) ε) (q : Position) (n : Nat)
    (p : Program (Stock × Position) α) : Prop :=
  ∀ s w, entriesAt q (env.arrivals p s w) ≤ n

variable {env : Environment (Stock × Position) ε} {q : Position} {m n : Nat}

theorem Enters.mono {p : Program (Stock × Position) α} (h : p.Enters env q m) (le : m ≤ n) :
    p.Enters env q n :=
  fun s w => Nat.le_trans (h s w) le

theorem enters_done (r : Except ScriptError α) :
    (.done r : Program (Stock × Position) α).Enters env q 0 :=
  fun _ _ => Nat.le_refl 0

theorem enters_act {a : Action (Stock × Position)}
    (other : ∀ b, a = .stop .enter b → b.position ≠ q) : (perform a).Enters env q 0 := by
  intro s w
  rw [Environment.arrivals_perform]
  cases a with
  | stop reason b =>
    cases reason with
    | enter =>
      have apart := other b rfl
      simp [Action.arrival, entriesAt, apart]
    | _ => exact Nat.le_refl 0
  | _ => exact Nat.le_refl 0

theorem enters_enter (b : Block (Stock × Position)) :
    (perform (.stop .enter b)).Enters env q 1 := by
  intro s w
  rw [Environment.arrivals_perform]
  exact List.countP_le_length

theorem Enters.bind {p : Program (Stock × Position) α} {f : α → Program (Stock × Position) γ}
    (first : p.Enters env q m) (rest : ∀ a, (f a).Enters env q n) :
    (p >>= f).Enters env q (m + n) := by
  intro s w
  rw [Environment.arrivals_bind, entriesAt_append]
  apply Nat.add_le_add (first s w)
  split
  · exact rest _ _ _
  · exact Nat.zero_le n

theorem Enters.inScope {p : Program (Stock × Position) α} (body : p.Enters env q n) :
    p.inScope.Enters env q n := by
  intro s w
  rw [Environment.arrivals_inScope]
  exact body _ w

theorem enters_lift (r : Except ScriptError α) {f : α → Program (Stock × Position) γ}
    (rest : ∀ a, (f a).Enters env q n) : (liftM r >>= f).Enters env q n := by
  cases r with
  | ok a => exact rest a
  | error e => exact (enters_done _).mono (Nat.zero_le n)

/-- Never to enter a node is inherited by sequences and scopes. -/
theorem compositional_never :
    Compositional (fun _ (p : Program (Stock × Position) _) => p.Enters env q 0)
      (fun a => ∀ b, a = .stop .enter b → b.position ≠ q) where
  done := enters_done
  act _ other := enters_act other
  bind := Enters.bind
  inScope := Enters.inScope

end Program

namespace Inputs

open Program

/-- Each input enters a node at most as often as its slot is allowed to. -/
def Enter (env : Environment (Stock × Position) ε) (q : Position) (allowed : String → Nat)
    (inputs : Inputs (Stock × Position)) : Prop :=
  ∀ slot p, Entries.value? slot inputs = some p → p.Enters env q (allowed slot)

variable {env : Environment (Stock × Position) ε} {q : Position} {allowed : String → Nat}
  {inputs : Inputs (Stock × Position)} (h : inputs.Enter env q allowed)
include h

theorem Enter.required (header : Header (Stock × Position)) (slot : String) :
    (inputs.required header slot).Enters env q (allowed slot) := by
  unfold Inputs.required
  split
  · next p hp => exact h slot p hp
  · exact (enters_done _).mono (Nat.zero_le _)

theorem Enter.optional (slot : String) :
    (inputs.optional slot).Enters env q (allowed slot) := by
  unfold Inputs.optional
  split
  · next p hp => exact (h slot p hp).bind fun v => enters_done _
  · exact (enters_done _).mono (Nat.zero_le _)

theorem Enter.statements (slot : String) :
    (inputs.statements slot).Enters env q (allowed slot) := by
  unfold Inputs.statements
  split
  · next p hp => exact h slot p hp
  · exact (enters_done _).mono (Nat.zero_le _)

end Inputs

namespace Stock

theorem not_performs_stop {β : Type} {header : Header β} {k : Stock} {reason : StopReason}
    {b : Block β} : ¬k.Performs header (.stop reason b) := by
  cases k <;> simp [Performs]

/-- The conditions and the statements of some branches, and the last resort. -/
def branchSlots (otherwise : List String) : (count index : Nat) → List String
  | 0, _ => otherwise
  | count + 1, index =>
    s!"IF{index}" :: s!"DO{index}" :: branchSlots otherwise count (index + 1)

/-- The slots a block may read, the body of a repetition aside. -/
def slots {β : Type} (h : Header β) : Stock → List String
  | .number | .text | .boolean | .null | .getVariable => []
  | .arithmetic | .comparison | .logic => ["A", "B"]
  | .negation => ["BOOL"]
  | .join => Plan.numbered "ADD" (h.count "itemCount") 0
  | .setVariable | .setGlobal | .logTag => ["VALUE"]
  | .branches =>
    branchSlots (if h.flag "hasElse" then ["ELSE"] else []) (h.count "elseIfCount" + 1) 0
  | .repetition => ["TIMES"]
  | .scope => ["DO"]
  | .failure => ["MESSAGE"]
  | .siteCall => Plan.numbered "ARG" (h.count "argCount") 0
  | .childScript => ["INPUT"]

theorem numbered_inj {name : String} {i j : Nat} (h : s!"{name}{i}" = s!"{name}{j}") : i = j := by
  have digits : Nat.toDigits 10 i = Nat.toDigits 10 j := by
    apply String.ofList_injective
    simpa [Nat.repr_eq_ofList_toDigits] using h
  have value (n : Nat) : Nat.ofDigitChars 10 (Nat.toDigits 10 n) 0 = n :=
    Nat.ofDigitChars_toDigits (by omega) (by omega)
  rw [← value i, digits, value j]

theorem numbered_nodup (name : String) (count index : Nat) :
    (Plan.numbered name count index).Nodup :=
  (List.nodup_range' 1).map fun _ _ => numbered_inj

theorem mem_branchSlots {otherwise : List String} {count index : Nat} {slot : String}
    (h : slot ∈ branchSlots otherwise count index) :
    slot ∈ otherwise ∨ ∃ i, index ≤ i ∧ (slot = s!"IF{i}" ∨ slot = s!"DO{i}") := by
  induction count generalizing index with
  | zero => exact .inl h
  | succ count ih =>
    simp only [branchSlots, List.mem_cons] at h
    obtain rfl | rfl | later := h
    · exact .inr ⟨index, Nat.le_refl _, .inl rfl⟩
    · exact .inr ⟨index, Nat.le_refl _, .inr rfl⟩
    · obtain last | ⟨i, le, named⟩ := ih later
      · exact .inl last
      · exact .inr ⟨i, by omega, named⟩

theorem branchSlots_nodup {otherwise : List String} (unique : otherwise.Nodup)
    (last : ∀ slot ∈ otherwise, slot = "ELSE") (count index : Nat) :
    (branchSlots otherwise count index).Nodup := by
  have initial (name : String) (i : Nat) {c : Char} {rest : List Char}
      (h : name.toList = c :: rest) :
      (s!"{name}{i}").toList.head? = some c := by
    rw [String.toList_append]
    exact congrArg (fun l => (l ++ (toString i).toList).head?) h
  have condition (i : Nat) : (s!"IF{i}").toList.head? = some 'I' := initial "IF" i rfl
  have body (i : Nat) : (s!"DO{i}").toList.head? = some 'D' := initial "DO" i rfl
  induction count generalizing index with
  | zero => exact unique
  | succ count ih =>
    -- Later slots have a larger number or another letter in front.
    have later (slot : String) (mem : slot ∈ branchSlots otherwise count (index + 1)) :
        slot ≠ s!"IF{index}" ∧ slot ≠ s!"DO{index}" := by
      obtain other | ⟨i, le, rfl | rfl⟩ := mem_branchSlots mem
      · rw [last slot other]
        refine ⟨fun h => ?_, fun h => ?_⟩
        · exact absurd (condition index) (by rw [← h]; decide)
        · exact absurd (body index) (by rw [← h]; decide)
      · refine ⟨fun h => ?_, fun h => ?_⟩
        · have := numbered_inj h
          omega
        · exact absurd (condition i) (by rw [h, body]; decide)
      · refine ⟨fun h => ?_, fun h => ?_⟩
        · exact absurd (body i) (by rw [h, condition]; decide)
        · have := numbered_inj h
          omega
    refine List.nodup_cons.mpr ⟨?_, List.nodup_cons.mpr ⟨fun mem => (later _ mem).2 rfl, ih _⟩⟩
    intro mem
    obtain same | mem := List.mem_cons.mp mem
    · exact absurd (condition index) (by rw [same, body]; decide)
    · exact (later _ mem).1 rfl

/-- No kind reads a slot twice. -/
theorem slots_nodup {β : Type} (h : Header β) (k : Stock) : (k.slots h).Nodup := by
  cases k with
  | join | siteCall => exact numbered_nodup _ _ _
  | branches =>
    apply branchSlots_nodup
    · split <;> simp
    · split <;> simp
  | _ => simp [slots]

end Stock

namespace Kinds

variable {β : Type}

/-- The number of times a repetition computes before it runs its body. -/
def times (h : Header β) (inputs : Inputs β) : Program β Nat := do
  if Entries.binds "TIMES" h.fields then
    let x ← h.fieldNumber "TIMES"
    pure (timesOf x)
  else
    let v ← inputs.required h "TIMES"
    let x ← v.toNumber
    pure (timesOf x)

theorem repeatBlock_eq (h : Header β) (inputs : Inputs β) :
    repeatBlock h inputs = times h inputs >>= fun n => iterate inputs n .null := by
  unfold repeatBlock times
  split <;> simp only [bind_assoc, pure_bind]

section
open Program

variable {env : Environment (Stock × Position) ε} {q : Position} {allowed : String → Nat}
  {inputs : Inputs (Stock × Position)} (enter : inputs.Enter env q allowed)
  (h : Header (Stock × Position))
include enter

theorem joinItems_enters (count index : Nat) : (joinItems inputs count index).Enters env q
    ((Plan.numbered "ADD" count index).map allowed).sum := by
  induction count generalizing index with
  | zero => exact enters_done _
  | succ count ih =>
    exact (enter.optional _).bind fun _ => (ih (index + 1)).bind fun _ => enters_done _

theorem slotValues_enters (name : String) (count index : Nat) :
    (slotValues h inputs name count index).Enters env q
      ((Plan.numbered name count index).map allowed).sum := by
  induction count generalizing index with
  | zero => exact enters_done _
  | succ count ih =>
    exact (enter.required h _).bind fun _ => (ih (index + 1)).bind fun _ => enters_done _

/-- Of the statements at most those of one branch are run. -/
theorem branch_enters {otherwise : Program (Stock × Position) Value} {last : List String}
    (resort : otherwise.Enters env q (last.map allowed).sum) (count index : Nat) :
    (branch inputs otherwise count index).Enters env q
      ((Stock.branchSlots last count index).map allowed).sum := by
  induction count generalizing index with
  | zero => exact resort
  | succ count ih =>
    refine (enter.optional _).bind fun condition => ?_
    split
    · exact (enter.statements _).mono (Nat.le_add_right _ _)
    · exact (ih (index + 1)).mono (Nat.le_add_left _ _)

theorem ifBlock_enters :
    (ifBlock h inputs).Enters env q ((Stock.slots h .branches).map allowed).sum := by
  by_cases few : h.count "elseIfCount" + 1 < Nat.pow 2 64
  · simp only [ifBlock, few, ↓reduceIte]
    apply branch_enters enter
    split
    · exact enter.statements "ELSE"
    · exact enters_done _
  · simp only [ifBlock, few, ↓reduceIte]
    exact (compositional_never.crash (by simp)).mono (Nat.zero_le _)

theorem logicBlock_enters :
    (logicBlock h inputs).Enters env q (allowed "A" + (allowed "B" + 0)) := by
  have second : (logicBlock.second h inputs).Enters env q (allowed "B" + 0) :=
    (enter.required h "B").bind fun _ => enters_done _
  have none (r : Except ScriptError Value) :
      (.done r : Program (Stock × Position) Value).Enters env q (allowed "B" + 0) :=
    (enters_done r).mono (Nat.zero_le _)
  refine enters_lift _ fun op => (enter.required h "A").bind fun a => ?_
  split
  · split
    · exact second
    · exact none _
  · split
    · exact none _
    · exact second
  · exact none _

theorem times_enters : (times h inputs).Enters env q (allowed "TIMES") := by
  unfold times
  split
  · exact (enters_lift _ fun x => enters_done _).mono (Nat.zero_le _)
  · exact (enter.required h "TIMES").bind fun v => enters_lift _ fun x => enters_done _

theorem iterate_enters (times : Nat) (last : Value) :
    (iterate inputs times last).Enters env q (times * allowed "DO") := by
  induction times generalizing last with
  | zero => exact (enters_done _).mono (Nat.zero_le _)
  | succ times ih =>
    have step : (iterate inputs (times + 1) last).Enters env q
        (0 + (allowed "DO" + times * allowed "DO")) :=
      (enters_act (by simp)).bind fun _ =>
        (enter.statements "DO").inScope.bind fun v => ih v
    exact step.mono (by rw [Nat.succ_mul]; omega)

end

end Kinds

open Program Kinds in
/-- A block enters a node at most as often as the slots it reads allow together, if the body of a
repetition does not enter it. -/
theorem Stock.program_enters {env : Environment (Stock × Position) ε} {q : Position}
    {allowed : String → Nat} {inputs : Inputs (Stock × Position)}
    (enter : inputs.Enter env q allowed) (k : Stock) (h : Header (Stock × Position))
    (body : k = .repetition → allowed "DO" = 0) :
    (k.program h inputs).Enters env q ((k.slots h).map allowed).sum := by
  have silent {a : Action (Stock × Position)} (other : ∀ b, a ≠ .stop .enter b) :
      (perform a).Enters env q 0 := enters_act fun b same => absurd same (other b)
  cases k with
  | number | text => exact enters_lift _ fun _ => enters_done _
  | boolean | null => exact enters_done _
  | arithmetic =>
    exact enters_lift _ fun _ => (enter.required h "A").bind fun _ => enters_lift _ fun _ =>
      (enter.required h "B").bind fun _ => enters_lift _ fun _ => enters_lift _ fun _ =>
        enters_done _
  | comparison =>
    exact enters_lift _ fun _ => (enter.required h "A").bind fun _ =>
      (enter.required h "B").bind fun _ => enters_lift _ fun _ => enters_done _
  | logic => exact logicBlock_enters enter h
  | negation => exact (enter.required h "BOOL").bind fun _ => enters_done _
  | join => exact (joinItems_enters enter _ 0).bind fun _ => enters_done _
  | getVariable => exact enters_lift _ fun _ => silent (by simp)
  | setVariable | setGlobal =>
    exact enters_lift _ fun _ => (enter.required h "VALUE").bind fun _ =>
      (silent (by simp)).bind fun _ => enters_done _
  | branches => exact ifBlock_enters enter h
  | repetition =>
    have rest (n : Nat) : (iterate inputs n .null).Enters env q 0 :=
      (iterate_enters enter n .null).mono (by rw [body rfl, Nat.mul_zero])
    change (repeatBlock h inputs).Enters env q _
    rw [repeatBlock_eq]
    exact (times_enters enter h).bind rest
  | scope => exact (enter.statements "DO").inScope
  | failure => exact (enter.optional "MESSAGE").bind fun _ => enters_done _
  | siteCall =>
    refine enters_lift _ fun service => ?_
    rw [← Nat.zero_add (List.sum _)]
    exact (silent (by simp)).bind fun _ => (slotValues_enters enter h "ARG" _ 0).bind fun _ =>
      compositional_never.callSite (by simp) (by simp)
  | childScript =>
    exact enters_lift _ fun _ => (enter.optional "INPUT").bind fun _ =>
      (compositional_never.spawnChild (by simp) (by simp) (by simp)).bind fun _ => enters_done _
  | logTag =>
    exact enters_lift _ fun _ => (enter.required h "VALUE").bind fun _ =>
      (silent (by simp)).bind fun _ => enters_done _

namespace Block

open Program

variable {env : Environment (Stock × Position) ε} {q : Position}

theorem value?_placedPrograms (p : Position) (slot : String)
    (inputs : List (String × Block Stock)) :
    Entries.value? slot (program.inputPrograms (placed.placedInputs p inputs)) =
      (Entries.value? slot inputs).map fun b => (b.placed (p ++ [.slot slot])).program := by
  rw [value?_inputPrograms, value?_placedInputs, Option.map_map]
  rfl

/-- A block on its own enters a node at most as often as its slots allow together. -/
theorem placed_own_enters (b : Block Stock) {p : Position} {allowed : String → Nat}
    (inner : ∀ slot c, b.input? slot = some c →
      (c.placed (p ++ [.slot slot])).program.Enters env q (allowed slot))
    (body : b.header.behavior = .repetition → allowed "DO" = 0) :
    (b.placed p).own.Enters env q
      ((b.header.behavior.slots (b.placed p).header).map allowed).sum := by
  obtain ⟨h, inputs, next⟩ := b
  refine Stock.program_enters ?_ h.behavior _ body
  intro slot r found
  rw [value?_placedPrograms, Option.map_eq_some_iff] at found
  obtain ⟨c, plugged, rfl⟩ := found
  exact inner slot c plugged

theorem placed_own_never (b : Block Stock) {p : Position}
    (inner : ∀ slot c, b.input? slot = some c →
      (c.placed (p ++ [.slot slot])).program.Enters env q 0) :
    (b.placed p).own.Enters env q 0 :=
  (b.placed_own_enters inner fun _ => rfl).mono (by simp)

/-- What one slot enters once and the others never, the block enters once on its own, unless the
slot is the body of a repetition. -/
theorem placed_own_once (b : Block Stock) {p : Position} (slot : String)
    (this : ∀ c, b.input? slot = some c →
      (c.placed (p ++ [.slot slot])).program.Enters env q 1)
    (others : ∀ other c, other ≠ slot → b.input? other = some c →
      (c.placed (p ++ [.slot other])).program.Enters env q 0)
    (body : ¬(b.header.behavior = .repetition ∧ slot = "DO")) :
    (b.placed p).own.Enters env q 1 := by
  have total (slots : List String) :
      (slots.map fun other => if other = slot then 1 else 0).sum = slots.count slot := by
    induction slots with
    | nil => rfl
    | cons other rest ih => simp [List.count_cons, ih, Nat.add_comm]
  have enters : (b.placed p).own.Enters env q
      ((b.header.behavior.slots (b.placed p).header).map fun other =>
        if other = slot then 1 else 0).sum := by
    apply placed_own_enters
    · intro other c plugged
      split
      · next same =>
        subst same
        exact this c plugged
      · next different => exact others other c different plugged
    · intro repetition
      rw [if_neg]
      rintro rfl
      exact body ⟨repetition, rfl⟩
  refine enters.mono ?_
  rw [total]
  exact List.nodup_iff_count_le_one.mp (Stock.slots_nodup _ _) slot

/-- What a chain enters: its first block, what that block enters on its own, and what the blocks
after it enter. -/
theorem placed_chain_enters (b : Block Stock) {p : Position} {enter own after : Nat}
    (entered : (perform (.stop .enter (b.placed p))).Enters env q enter)
    (inner : (b.placed p).own.Enters env q own)
    (rest : ∀ n, b.next = some n → (n.placed (p ++ [.next])).program.Enters env q after) :
    (b.placed p).program.Enters env q (enter + (own + after)) := by
  have onward (v : Value) :
      (program.continuation v (b.placed p).next).Enters env q after := by
    obtain ⟨h, inputs, next⟩ := b
    cases next with
    | none => exact (enters_done _).mono (Nat.zero_le _)
    | some n => exact rest n rfl
  have chain : (b.placed p).program.Enters env q (0 + (enter + (own + (0 + after)))) := by
    rw [program_eq]
    exact (enters_act (by simp)).bind fun _ => entered.bind fun _ => inner.bind fun v =>
      (enters_act (by simp)).bind fun _ => onward v
  exact chain.mono (by omega)

theorem enters_other (b : Block Stock) {p : Position} (apart : p ≠ q) :
    (perform (.stop .enter (b.placed p))).Enters env q 0 := by
  apply enters_act
  rintro _ ⟨⟩
  cases b
  exact apart

/-- A chain enters only what lies at or below its first block, or after it. -/
theorem placed_never (b : Block Stock) {p : Position} (apart : ¬p <+: q) :
    (b.placed p).program.Enters env q 0 := by
  induction b using Block.induct generalizing p with
  | step h inputs next inner after =>
    have further (turn : Turn) : ¬(p ++ [turn]) <+: q :=
      fun within => apart ((List.prefix_append p [turn]).trans within)
    refine (placed_chain_enters _ (enters_other _ ?_) (placed_own_never _ ?_) ?_ :
      Enters env q (0 + (0 + 0)) _)
    · rintro rfl
      exact apart (List.prefix_refl p)
    · intro slot c plugged
      exact inner slot c plugged (further _)
    · intro n follows
      exact after n follows (further .next)

/-- A node lies in the body of the repetition at a position. -/
def InBody (root : Block Stock) (p q : Position) : Prop :=
  (∃ b, root.at? p = some b ∧ b.header.behavior = .repetition) ∧ p ++ [.slot "DO"] <+: q

/-- What lies in a body of a subtree lies in that body of the tree. -/
theorem InBody.within {root b : Block Stock} {p q r : Position} (found : root.at? p = some b)
    (h : b.InBody q r) : root.InBody (p ++ q) (p ++ r) := by
  obtain ⟨⟨d, inner, repetition⟩, below⟩ := h
  refine ⟨⟨d, ?_, repetition⟩, ?_⟩
  · rw [at?_append, found]
    exact inner
  · rw [List.append_assoc]
    exact (List.prefix_append_right_inj p).mpr below

theorem InBody.under {b c : Block Stock} {turn : Turn} {p q : Position}
    (leads : b.turn? turn = some c) (h : c.InBody p q) : b.InBody (turn :: p) (turn :: q) :=
  InBody.within (p := [turn]) (at?_cons leads []) h

/-- A chain enters a node at most once if no repetition in it has the node in its body. -/
theorem placed_once (b : Block Stock) {p r : Position} (free : ∀ R, ¬b.InBody R r) :
    (b.placed p).program.Enters env (p ++ r) 1 := by
  induction b using Block.induct generalizing p r with
  | step h inputs next inner after =>
    have aside (c : Block Stock) {turn : Turn} {rest : Position} (differ : ¬[turn] <+: rest) :
        (c.placed (p ++ [turn])).program.Enters env (p ++ rest) 0 :=
      c.placed_never fun within => differ ((List.prefix_append_right_inj p).mp within)
    have entered {turn : Turn} {rest : Position} :
        (perform (.stop .enter (placed p (.mk h inputs next)))).Enters env
          (p ++ turn :: rest) 0 :=
      enters_other _ fun same =>
        absurd (List.self_eq_append_right.mp same) (List.cons_ne_nil _ _)
    -- The node is the first block, or it lies after it, or in one of its slots.
    cases r with
    | nil =>
      refine (placed_chain_enters _ (enters_enter _) (placed_own_never _ ?_) ?_ :
        Enters env _ (1 + (0 + 0)) _)
      · intro slot c plugged
        exact aside c (by simp)
      · intro n follows
        exact aside n (by simp)
    | cons turn rest =>
      cases turn with
      | next =>
        refine (placed_chain_enters _ entered (placed_own_never _ ?_) ?_ :
          Enters env _ (0 + (0 + 1)) _)
        · intro slot c plugged
          exact aside c (by simp)
        · intro n follows
          have once := after n follows (p := p ++ [.next]) (r := rest)
            fun R body => free _ (body.under follows)
          rwa [List.append_assoc] at once
      | slot name =>
        refine (placed_chain_enters _ entered (placed_own_once _ name ?_ ?_ ?_) ?_ :
          Enters env _ (0 + (1 + 0)) _)
        · intro c plugged
          have once := inner name c plugged (p := p ++ [.slot name]) (r := rest)
            fun R body => free _ (body.under plugged)
          rwa [List.append_assoc] at once
        · intro other c different plugged
          exact aside c (by simpa using different)
        · rintro ⟨repetition, rfl⟩
          exact free [] ⟨⟨_, rfl, repetition⟩, by simp⟩
        · intro n follows
          exact aside n (by simp)

end Block

end BlockScript
