import Mathlib.Algebra.Order.Field.Power
import Mathlib.Algebra.Order.Floor.Semifield
import Mathlib.Data.Rat.Floor
import Mathlib.Tactic.Linarith
import Mathlib.Tactic.Positivity
import BlockScript.Proofs.DecisionLists
import BlockScript.Proofs.EntryCounts
import BlockScript.Proofs.FloatModel
import BlockScript.Proofs.ScopeDiscipline
/-!
Repetition as a sequence of scopes.

A repetition knows how often it runs its body before it runs it: as often as the whole part of a
positive number says, within 64 bits. It then does what that many scopes around the same body do one
after the other. Rounds run in order, each over an empty frame that sees the globals and nothing
else; the first round that fails is the last, and its frame is closed like any other.
-/

namespace BlockScript

namespace Kinds

open Float.Model Float.Model.UnpackedFloat

/-- The rational number that a finite float is. -/
def rational? (x : Float) : Option ℚ :=
  match x.toModel.unpack with
  | .zero _ => some 0
  | .finite sign mantissa exponent _ => some (sign.apply mantissa * 2 ^ exponent)
  | .infinity _ => none
  | .notANumber => none

/-- The count that a number denotes: its floor when it is finite and positive, at most what 64 bits
hold, and otherwise nothing. -/
def countOf (x : Float) : Nat :=
  match rational? x with
  | some q => if 0 < q then min ⌊q⌋₊ (UInt64.size - 1) else 0
  | none => 0

theorem roundToInt_positive (m : Nat) (e : Int) :
    (roundToInt .positive m e).toNat = m * 2 ^ e.toNat / 2 ^ (-e).toNat := by
  have left : (0 - (e - (e.toNat : Int))).toNat = (-e).toNat := by omega
  simp only [roundToInt, decreaseExponent, shiftToExponent, shifted_mantissa, Sign.apply,
    ExtendedMantissa.ofMantissaAndAccuracy, Int.sub_zero, left, Int.toNat_natCast,
    Nat.shiftLeft_eq]

theorem floor_scaled (m : Nat) (e : Int) :
    ⌊(m : ℚ) * 2 ^ e⌋₊ = m * 2 ^ e.toNat / 2 ^ (-e).toNat := by
  -- One of the two shifts is by nothing, whichever sign the exponent has.
  have scaled : (m : ℚ) * 2 ^ e = ((m * 2 ^ e.toNat : ℕ) : ℚ) / ((2 ^ (-e).toNat : ℕ) : ℚ) := by
    obtain ⟨k, rfl | rfl⟩ := e.eq_nat_or_neg
    · simp
    · simp [div_eq_mul_inv]
  rw [scaled, Nat.floor_div_natCast, Nat.floor_natCast]

theorem toNat_clamped (n : Nat) : (UInt64.ofNatClamp n).toNat = min n (UInt64.size - 1) := by
  by_cases small : n < UInt64.size
  · rw [UInt64.toNat_ofNatClamp_of_lt small]
    omega
  · rw [UInt64.toNat_ofNatClamp_of_le (Nat.le_of_not_lt small)]
    omega

theorem timesOf_eq_countOf (x : Float) : timesOf x = countOf x := by
  have times : timesOf x = if x.toModel.unpack.isFinite = true ∧
      UnpackedFloat.lt (.zero .positive) x.toModel.unpack = true then
        (UInt64.ofNatClamp (x.toModel.unpack.toInt 0 (UInt64.size - 1)).toNat).toNat else 0 := by
    simp only [timesOf, Bool.and_eq_true, decide_eq_true_eq, float_pos_iff]
    rfl
  rw [times, countOf, rational?]
  cases x.toModel.unpack with
  | infinity _ | notANumber => exact if_neg fun counts => Bool.false_ne_true counts.1
  | zero sign =>
    have level : ¬(0 : ℚ) < 0 := lt_irrefl 0
    exact (if_neg fun ahead => Bool.false_ne_true ahead.2).trans (if_neg level).symm
  | finite sign m e pos =>
    have size : (0 : ℚ) < m * 2 ^ e := by positivity
    cases sign with
    | negative =>
      have below : ¬(0 : ℚ) < (Sign.negative.apply m : ℤ) * 2 ^ e := by
        simp only [Sign.apply, Int.cast_neg, Int.cast_natCast, neg_mul]
        linarith
      exact (if_neg fun ahead => Bool.false_ne_true ahead.2).trans (if_neg below).symm
    | positive =>
      have above : (0 : ℚ) < (Sign.positive.apply m : ℤ) * 2 ^ e := size
      have whole : (roundToInt .positive m e).toNat =
          ⌊((Sign.positive.apply m : ℤ) : ℚ) * 2 ^ e⌋₊ := by
        rw [roundToInt_positive, ← floor_scaled]
        rfl
      rw [if_pos ⟨rfl, rfl⟩, toNat_clamped]
      exact (congrArg (min · (UInt64.size - 1)) whole).trans (if_pos above).symm

end Kinds

variable {ε : Type}

namespace Environment

/-- Nobody watches, and nothing is ever aborted. -/
structure Unattended (env : Environment Stock ε) : Prop where
  unwatched : env.debugger = none
  quiet : ∀ e, env.aborted e = false

namespace Unattended

variable {env : Environment Stock ε} (unattended : env.Unattended)
include unattended

theorem run_checkAbort (s : RunState) (w : World ε) :
    env.run (Program.perform .checkAbort) s w = (.result (.ok ()), s, w) := by
  rw [run_perform, perform, unattended.quiet]
  rfl

/-- A chain runs its first block and goes on with the next. -/
theorem run_program (b : Block Stock) (s : RunState) (w : World ε) :
    env.run b.program s w =
      env.run (b.own >>= fun v => Block.program.continuation v b.next) s w := by
  rw [b.run_program unattended.unwatched, run_bind, unattended.run_checkAbort]

end Unattended

end Environment

namespace RunState

def opened (s : RunState) : RunState :=
  { s with scopes := s.scopes.openScope }

def closed (s : RunState) (previous : Nat) : RunState :=
  { s with scopes := s.scopes.closeScope previous }

end RunState

/-- A program in a scope of its own runs over an open one, which is closed with its result. -/
theorem Environment.run_inScope_closed {α : Type} (env : Environment Stock ε)
    (p : Program Stock α) (s : RunState) (w : World ε) :
    env.run p.inScope s w =
      match env.run p s.opened w with
      | (.result r, t, u) => (.result r, t.closed s.scopes.current, u)
      | (.cut, t, u) => (.cut, t, u)
      | (.stuck, t, u) => (.stuck, t, u)
      | (.crash, t, u) => (.crash, t, u) :=
  env.run_inScope p s w

namespace Block

/-- A number of rounds, one after the other and none of them failing: the value of the last, the
states they lead from and to, and the blocks they enter. Each runs in a scope that is opened for it
and closed after it. -/
inductive Rounds (env : Environment Stock ε) (body : Program Stock Value) (s : RunState)
    (w : World ε) : Nat → Value → RunState → World ε → List (Arrival Stock ε) → Prop
  | none : Rounds env body s w 0 .null s w []
  | more {k : Nat} {v v' : Value} {t t' : RunState} {u u' : World ε}
      {seen : List (Arrival Stock ε)} (before : Rounds env body s w k v t u seen)
      (ran : env.run body t.opened u = (.result (.ok v'), t', u')) :
      Rounds env body s w (k + 1) v' (t'.closed t.scopes.current) u'
        (seen ++ env.arrivals body t.opened u)

/-- How a repetition ends, and the blocks it enters. -/
inductive Repeats (env : Environment Stock ε) (body : Program Stock Value) (n : Nat) (s : RunState)
    (w : World ε) : Ending Value × RunState × World ε → List (Arrival Stock ε) → Prop
  | finished {v : Value} {t : RunState} {u : World ε} {seen : List (Arrival Stock ε)}
      (all : Rounds env body s w n v t u seen) :
      Repeats env body n s w (.result (.ok v), t, u) seen
  /-- The first round that fails is the last, and its scope is closed. -/
  | failed {k : Nat} {v : Value} {e : ScriptError} {t t' : RunState} {u u' : World ε}
      {seen : List (Arrival Stock ε)} (there : k < n) (before : Rounds env body s w k v t u seen)
      (ran : env.run body t.opened u = (.result (.error e), t', u')) :
      Repeats env body n s w (.result (.error e), t'.closed t.scopes.current, u')
        (seen ++ env.arrivals body t.opened u)
  /-- A round does not come to its end. -/
  | interrupted {k : Nat} {v : Value} {ending : Ending Value} {t t' : RunState} {u u' : World ε}
      {seen : List (Arrival Stock ε)} (there : k < n) (before : Rounds env body s w k v t u seen)
      (ran : env.run body t.opened u = (ending, t', u')) (endless : ∀ r, ending ≠ .result r) :
      Repeats env body n s w (ending, t', u') (seen ++ env.arrivals body t.opened u)

/-- The rounds that a block has left, after one with a value. -/
def roundsFrom (b : Block Stock) (left : Nat) (last : Value) : Program Stock Value :=
  Kinds.iterate (program.inputPrograms b.inputs) left last

def loopBody (b : Block Stock) : Program Stock Value :=
  b.slot "DO" .null

theorem loopBody_orderly (b : Block Stock) : b.loopBody.Orderly := by
  rw [loopBody, slot]
  split
  · exact Block.program_orderly _
  · exact .done _

theorem roundsFrom_succ (b : Block Stock) (left : Nat) (last : Value) :
    b.roundsFrom (left + 1) last = Program.perform .checkAbort >>= fun _ =>
      b.loopBody.inScope >>= fun v => b.roundsFrom left v := by
  rw [loopBody, ← statements_eq_slot]
  rfl

section Rounds

variable {env : Environment Stock ε} (unattended : env.Unattended) {b : Block Stock}
  {s t t' : RunState} {w u u' : World ε} {k : Nat} {v v' : Value} {seen : List (Arrival Stock ε)}
include unattended

theorem run_roundsFrom_succ (left : Nat) (last : Value) (s : RunState) (w : World ε) :
    env.run (b.roundsFrom (left + 1) last) s w =
      match env.run b.loopBody s.opened w with
      | (.result (.ok v), t, u) => env.run (b.roundsFrom left v) (t.closed s.scopes.current) u
      | (.result (.error e), t, u) => (.result (.error e), t.closed s.scopes.current, u)
      | (.cut, t, u) => (.cut, t, u)
      | (.stuck, t, u) => (.stuck, t, u)
      | (.crash, t, u) => (.crash, t, u) := by
  have inside : env.run (b.roundsFrom (left + 1) last) s w =
      env.run (b.loopBody.inScope >>= fun v => b.roundsFrom left v) s w := by
    rw [roundsFrom_succ, env.run_bind, unattended.run_checkAbort]
  rw [inside, env.run_bind, env.run_inScope_closed]
  rcases env.run b.loopBody s.opened w with ⟨(_ | _) | _ | _ | _, t, u⟩ <;> rfl

theorem arrivals_roundsFrom_succ (left : Nat) (last : Value) (s : RunState) (w : World ε) :
    env.arrivals (b.roundsFrom (left + 1) last) s w =
      env.arrivals b.loopBody s.opened w ++
        match env.run b.loopBody s.opened w with
        | (.result (.ok v), t, u) =>
          env.arrivals (b.roundsFrom left v) (t.closed s.scopes.current) u
        | _ => [] := by
  have inside : env.arrivals (b.roundsFrom (left + 1) last) s w =
      env.arrivals (b.loopBody.inScope >>= fun v => b.roundsFrom left v) s w := by
    rw [roundsFrom_succ, env.arrivals_bind, unattended.run_checkAbort, env.arrivals_perform]
    rfl
  rw [inside, env.arrivals_bind, env.arrivals_inScope, env.run_inScope_closed]
  rcases env.run b.loopBody s.opened w with ⟨(_ | _) | _ | _ | _, t, u⟩ <;> rfl

theorem round_done (left : Nat)
    (ran : env.run b.loopBody t.opened u = (.result (.ok v'), t', u')) :
    env.run (b.roundsFrom (left + 1) v) t u =
      env.run (b.roundsFrom left v') (t'.closed t.scopes.current) u' ∧
    env.arrivals (b.roundsFrom (left + 1) v) t u = env.arrivals b.loopBody t.opened u ++
      env.arrivals (b.roundsFrom left v') (t'.closed t.scopes.current) u' := by
  rw [run_roundsFrom_succ unattended, arrivals_roundsFrom_succ unattended, ran]
  exact ⟨rfl, rfl⟩

theorem round_failed (left : Nat) {e : ScriptError}
    (ran : env.run b.loopBody t.opened u = (.result (.error e), t', u')) :
    env.run (b.roundsFrom (left + 1) v) t u =
      (.result (.error e), t'.closed t.scopes.current, u') ∧
    env.arrivals (b.roundsFrom (left + 1) v) t u = env.arrivals b.loopBody t.opened u := by
  rw [run_roundsFrom_succ unattended, arrivals_roundsFrom_succ unattended, ran]
  exact ⟨rfl, List.append_nil _⟩

theorem round_interrupted (left : Nat) {ending : Ending Value}
    (ran : env.run b.loopBody t.opened u = (ending, t', u')) (endless : ∀ r, ending ≠ .result r) :
    env.run (b.roundsFrom (left + 1) v) t u = (ending, t', u') ∧
    env.arrivals (b.roundsFrom (left + 1) v) t u = env.arrivals b.loopBody t.opened u := by
  rw [run_roundsFrom_succ unattended, arrivals_roundsFrom_succ unattended, ran]
  cases ending with
  | result r => exact absurd rfl (endless r)
  | cut | stuck | crash => exact ⟨rfl, List.append_nil _⟩

/-- Behind rounds that are done, the remaining rounds run. -/
theorem Rounds.rest (rounds : Rounds env b.loopBody s w k v t u seen) (left : Nat) :
    env.run (b.roundsFrom (k + left) .null) s w = env.run (b.roundsFrom left v) t u ∧
    env.arrivals (b.roundsFrom (k + left) .null) s w =
      seen ++ env.arrivals (b.roundsFrom left v) t u := by
  induction rounds generalizing left with
  | none => simp
  | @more k v v' t t' u u' seen before ran ih =>
    obtain ⟨runs, enters⟩ := ih (left + 1)
    obtain ⟨ended, entered⟩ := round_done unattended (v := v) left ran
    rw [Nat.add_right_comm, Nat.add_assoc, runs, enters, ended, entered, List.append_assoc]
    exact ⟨rfl, rfl⟩

/-- However a repetition ends is how its rounds run. -/
theorem Repeats.runs {n : Nat} {outcome : Ending Value × RunState × World ε}
    {entered : List (Arrival Stock ε)} (repeats : Repeats env b.loopBody n s w outcome entered) :
    env.run (b.roundsFrom n .null) s w = outcome ∧
    env.arrivals (b.roundsFrom n .null) s w = entered := by
  cases repeats with
  | finished all =>
    obtain ⟨runs, enters⟩ := all.rest unattended 0
    exact ⟨runs, enters.trans (List.append_nil _)⟩
  | @failed k v e t t' u u' seen there before ran =>
    obtain ⟨left, rfl⟩ := Nat.exists_eq_add_of_lt there
    obtain ⟨runs, enters⟩ := before.rest unattended (left + 1)
    obtain ⟨ended, reached⟩ := round_failed unattended (v := v) left ran
    rw [Nat.add_assoc, runs, enters, ended, reached]
    exact ⟨rfl, rfl⟩
  | @interrupted k v ending t t' u u' seen there before ran endless =>
    obtain ⟨left, rfl⟩ := Nat.exists_eq_add_of_lt there
    obtain ⟨runs, enters⟩ := before.rest unattended (left + 1)
    obtain ⟨ended, reached⟩ := round_interrupted unattended (v := v) left ran endless
    rw [Nat.add_assoc, runs, enters, ended, reached]
    exact ⟨rfl, rfl⟩

/-- Rounds that are left run as a repetition has it, when those before them are done. -/
theorem Rounds.repeats (rounds : Rounds env b.loopBody s w k v t u seen) (left : Nat) :
    Repeats env b.loopBody (k + left) s w (env.run (b.roundsFrom left v) t u)
      (seen ++ env.arrivals (b.roundsFrom left v) t u) := by
  induction left generalizing k v t u seen with
  | zero =>
    have ended : env.run (b.roundsFrom 0 v) t u = (.result (.ok v), t, u) := rfl
    have nothing : env.arrivals (b.roundsFrom 0 v) t u = [] := rfl
    rw [ended, nothing, List.append_nil]
    exact .finished rounds
  | succ left ih =>
    have there : k < k + (left + 1) := by omega
    rcases ran : env.run b.loopBody t.opened u with ⟨ending, t', u'⟩
    by_cases result : ∃ r, ending = .result r
    · obtain ⟨r, rfl⟩ := result
      cases r with
      | ok v' =>
        obtain ⟨ended, entered⟩ := round_done unattended (v := v) left ran
        rw [ended, entered, ← List.append_assoc, ← Nat.add_assoc, Nat.add_right_comm]
        exact ih (rounds.more ran)
      | error e =>
        obtain ⟨ended, entered⟩ := round_failed unattended (v := v) left ran
        rw [ended, entered]
        exact .failed there rounds ran
    · have endless (r : Except ScriptError Value) : ending ≠ .result r := fun eq => result ⟨r, eq⟩
      obtain ⟨ended, entered⟩ := round_interrupted unattended (v := v) left ran endless
      rw [ended, entered]
      exact .interrupted there rounds ran endless

theorem rounds_iff_repeats (n : Nat) (s : RunState) (w : World ε)
    (outcome : Ending Value × RunState × World ε) (entered : List (Arrival Stock ε)) :
    (env.run (b.roundsFrom n .null) s w = outcome ∧
      env.arrivals (b.roundsFrom n .null) s w = entered) ↔
    Repeats env b.loopBody n s w outcome entered := by
  constructor
  · rintro ⟨rfl, rfl⟩
    have start : Rounds env b.loopBody s w 0 .null s w [] := .none
    simpa using start.repeats unattended n
  · exact Repeats.runs unattended

end Rounds

/-- A chain of scopes, each with the same body as a block. -/
inductive ScopeChain (b : Block Stock) : Nat → Option (Block Stock) → Prop
  | nil : ScopeChain b 0 none
  | cons {n : Nat} {c : Block Stock} (scope : c.header.behavior = .scope)
      (body : c.input? "DO" = b.input? "DO") (rest : ScopeChain b n c.next) :
      ScopeChain b (n + 1) (some c)

theorem exists_scopeChain (b : Block Stock) (n : Nat) : ∃ first, ScopeChain b n first := by
  induction n with
  | zero => exact ⟨none, .nil⟩
  | succ n ih =>
    obtain ⟨rest, chain⟩ := ih
    exact ⟨some (.mk ⟨"controls_scope", none, .scope, [], []⟩ b.inputs rest), .cons rfl rfl chain⟩

theorem continuation_orderly (v : Value) (first : Option (Block Stock)) :
    (program.continuation v first).Orderly := by
  cases first with
  | none => exact .done _
  | some c => exact c.program_orderly

theorem own_of_scope {b c : Block Stock} (scope : c.header.behavior = .scope)
    (body : c.input? "DO" = b.input? "DO") : c.own = b.loopBody.inScope := by
  have same : c.slot "DO" .null = b.loopBody := by
    rw [loopBody, slot, slot, body]
  rw [← same, ← statements_eq_slot]
  obtain ⟨h, inputs, next⟩ := c
  have kind : h.behavior = .scope := scope
  rw [own, kind]
  rfl

/-- A chain of scopes does what as many rounds do. -/
theorem ScopeChain.run_eq {env : Environment Stock ε} (unattended : env.Unattended)
    {b : Block Stock} {n : Nat} {first : Option (Block Stock)} (chain : ScopeChain b n first)
    (last : Value) (s : RunState) (w : World ε) :
    env.run (program.continuation last first) s w = env.run (b.roundsFrom n last) s w := by
  induction chain generalizing last s w with
  | nil => rfl
  | @cons n c scope body rest ih =>
    change env.run c.program s w = _
    rw [unattended.run_program, own_of_scope scope body, env.run_bind, env.run_inScope_closed,
      run_roundsFrom_succ unattended]
    rcases env.run b.loopBody s.opened w with ⟨(_ | v) | _ | _ | _, t, u⟩
    · rfl
    · exact ih v (t.closed s.scopes.current) u
    · rfl
    · rfl
    · rfl

/-- What a repetition finds out before its first round: how many there are to be. A number in a
field is at hand, and one in an input is the value of that input, evaluated once. -/
inductive Counts (env : Environment Stock ε) (b : Block Stock) (s : RunState) (w : World ε) :
    Nat → RunState → World ε → List (Arrival Stock ε) → Prop
  | field {x : Float} (given : b.header.fieldNumber "TIMES" = .ok x) :
      Counts env b s w (Kinds.countOf x) s w []
  | input {c : Block Stock} {v : Value} {x : Float} {t : RunState} {u : World ε}
      (missing : Entries.binds "TIMES" b.header.fields = false)
      (plugged : b.input? "TIMES" = some c)
      (ran : env.run c.program s w = (.result (.ok v), t, u)) (number : v.toNumber = .ok x) :
      Counts env b s w (Kinds.countOf x) t u (env.arrivals c.program s w)

section Counts

variable {env : Environment Stock ε} {b : Block Stock} {s t : RunState} {w u : World ε} {n : Nat}
  {asked : List (Arrival Stock ε)}

theorem binds_of_fieldNumber {h : Header Stock} {name : String} {x : Float}
    (given : h.fieldNumber name = .ok x) : Entries.binds name h.fields = true := by
  cases found : Entries.value? name h.fields with
  | some j => rw [Entries.binds, found, Option.isSome_some]
  | none =>
    rw [Header.fieldNumber, Header.field, found] at given
    cases given

theorem own_of_repetition (repetition : b.header.behavior = .repetition) :
    b.own = Kinds.times b.header (program.inputPrograms b.inputs) >>= fun n =>
      b.roundsFrom n .null := by
  obtain ⟨h, inputs, next⟩ := b
  have kind : h.behavior = .repetition := repetition
  rw [own, kind]
  exact Kinds.repeatBlock_eq h _

/-- The count is computed the way it is found out. -/
theorem Counts.times (counts : Counts env b s w n t u asked) :
    env.run (Kinds.times b.header (program.inputPrograms b.inputs)) s w = (.result (.ok n), t, u) ∧
    env.arrivals (Kinds.times b.header (program.inputPrograms b.inputs)) s w = asked := by
  cases counts with
  | @field x given =>
    rw [Kinds.times, if_pos (binds_of_fieldNumber given), given, ← Kinds.timesOf_eq_countOf]
    exact ⟨rfl, rfl⟩
  | @input c v x t u missing plugged ran number =>
    have required : Inputs.required (program.inputPrograms b.inputs) b.header "TIMES" =
        c.program := by
      have found : Entries.value? "TIMES" b.inputs = some c := plugged
      rw [Inputs.required, value?_inputPrograms, found]
      rfl
    rw [Kinds.times, if_neg (by simp [missing]), required, env.run_bind, env.arrivals_bind, ran,
      ← Kinds.timesOf_eq_countOf]
    simp only [number]
    exact ⟨rfl, List.append_nil _⟩

/-- Once the count is found out, the rounds follow. -/
theorem Counts.own_eq (repetition : b.header.behavior = .repetition)
    (counts : Counts env b s w n t u asked) :
    env.run b.own s w = env.run (b.roundsFrom n .null) t u ∧
    env.arrivals b.own s w = asked ++ env.arrivals (b.roundsFrom n .null) t u := by
  obtain ⟨counted, entered⟩ := counts.times
  rw [own_of_repetition repetition, env.run_bind, env.arrivals_bind, counted, entered]
  exact ⟨rfl, rfl⟩

theorem Counts.kept (wf : s.scopes.WellFormed) (counts : Counts env b s w n t u asked) :
    s.scopes.Kept t.scopes := by
  cases counts with
  | field => exact .refl _
  | @input c v x t u missing plugged ran number => exact c.program_orderly.kept wf ran

end Counts

theorem Rounds.kept {env : Environment Stock ε} {b : Block Stock} {s t : RunState} {w u : World ε}
    {k : Nat} {v : Value} {seen : List (Arrival Stock ε)} (wf : s.scopes.WellFormed)
    (rounds : Rounds env b.loopBody s w k v t u seen) : s.scopes.Kept t.scopes := by
  induction rounds with
  | none => exact .refl _
  | @more k v v' t t' u u' seen before ran ih =>
    have here : t.scopes.WellFormed := ih.wellFormed wf
    have round : t.opened.scopes.Kept t'.scopes :=
      b.loopBody_orderly.kept (here.openUnder here.current_lt) ran
    exact ih.trans (here.kept_closeScope round)

/-- A round starts over an empty frame, in which it sees the globals and nothing else. -/
theorem opened_fresh {s : RunState} (wf : s.scopes.WellFormed) :
    s.opened.scopes.bindingsAt s.opened.scopes.current = [] ∧
    ∀ name, s.opened.scopes.get name = (Entries.value? name s.scopes.globals).getD .null := by
  have here : s.opened.scopes.WellFormed := wf.openUnder wf.current_lt
  have empty : s.opened.scopes.bindingsAt s.opened.scopes.current = [] := by
    simp [RunState.opened, Scopes.openScope, Scopes.openUnder, Scopes.bindingsAt]
  refine ⟨empty, ?_⟩
  intro name
  have globals : s.opened.scopes.bindingsAt 0 = s.scopes.globals :=
    Scopes.bindingsAt_openUnder _ _ _ wf.depth_pos
  rw [Scopes.get, empty, here.root_eq, globals]
  rfl

/-- A repetition that finds out a count does what a chain of as many scopes around the same body
does then: the result is the same, and so is all it leaves behind. Its rounds run in order, the
first that fails is the last, and beside what the count takes it enters nothing but what they enter.
Every round starts over an empty frame that sees the globals and nothing else, and when the
repetition ends with a value or an error, the frames are those it found. -/
theorem repetition_sequences_scopes {ε : Type} {env : Environment Stock ε}
    (unattended : env.Unattended) {b : Block Stock} (repetition : b.header.behavior = .repetition)
    {s t : RunState} {w u : World ε} {n : Nat} {asked : List (Arrival Stock ε)}
    (counts : Counts env b s w n t u asked) :
    (∃ first, ScopeChain b n first) ∧
    (∀ first, ScopeChain b n first →
      env.run b.own s w = env.run (program.continuation .null first) t u) ∧
    (∀ outcome entered,
      (env.run b.own s w = outcome ∧ env.arrivals b.own s w = asked ++ entered) ↔
        Repeats env b.loopBody n t u outcome entered) ∧
    (s.scopes.WellFormed →
      (∀ k v t' u' seen, Rounds env b.loopBody t u k v t' u' seen →
        t.scopes.Kept t'.scopes ∧
        t'.opened.scopes.bindingsAt t'.opened.scopes.current = [] ∧
        ∀ name, t'.opened.scopes.get name = (Entries.value? name t'.scopes.globals).getD .null) ∧
      ∀ r t' u', env.run b.own s w = (.result r, t', u') →
        s.scopes.Kept t.scopes ∧ t.scopes.Kept t'.scopes) := by
  obtain ⟨runs, enters⟩ := counts.own_eq repetition
  refine ⟨b.exists_scopeChain n, ?_, ?_, ?_⟩
  · intro first chain
    rw [runs, chain.run_eq unattended]
  · intro outcome entered
    rw [runs, enters, List.append_cancel_left_eq]
    exact rounds_iff_repeats unattended n t u outcome entered
  · intro wf
    have found := counts.kept wf
    have here : t.scopes.WellFormed := found.wellFormed wf
    constructor
    · intro k v t' u' seen rounds
      have kept := rounds.kept here
      exact ⟨kept, opened_fresh (kept.wellFormed here)⟩
    · intro r t' u' ran
      -- The frames are kept by any chain, so by one that does the same.
      obtain ⟨first, chain⟩ := b.exists_scopeChain n
      rw [runs, ← chain.run_eq unattended] at ran
      exact ⟨found, (continuation_orderly .null first).kept here ran⟩

/-- Two and a half times, a local is set to what it was with a letter more, and copied to a
global. -/
def growing : Block Stock :=
  .mk ⟨"controls_repeat_ext", none, .repetition, [], []⟩
    [("DO", set .setVariable "kept" longer (some (set .setGlobal "seen" (get "kept") none))),
      ("TIMES", .mk ⟨"math_number", none, .number, [("NUM", .number (.float 2.5))], []⟩ [] none)]
    none
where
  get (name : String) : Block Stock :=
    .mk ⟨"variables_get", none, .getVariable, [("VAR", .string name)], []⟩ [] none
  set (kind : Stock) (name : String) (value : Block Stock) (next : Option (Block Stock)) :
      Block Stock :=
    .mk ⟨"variables_set", none, kind, [("VAR", .string name)], []⟩ [("VALUE", value)] next
  longer : Block Stock :=
    .mk ⟨"text_join", none, .join, [],
        [⟨Mutation.defaultDomain, "itemCount", .number (.nat 2)⟩]⟩
      [("ADD0", get "kept"),
        ("ADD1", .mk ⟨"text", none, .text, [("TEXT", .string "x")], []⟩ [] none)]
      none

/-- There are two rounds, and the second does not see the local of the first: the global is one
letter in the end, as it is after two scopes. -/
theorem two_rounds_of_one_letter :
    let env : Environment Stock Unit := .alone (.bare [])
    let w : World Unit := { peers := (), origin := ⟨0, 0⟩ }
    let s := Script.initial ⟨growing, {}⟩ env w
    ∃ asked first t u, Counts env growing s w 2 s w asked ∧
      asked.map (fun a => a.block.kind) = ["math_number"] ∧ ScopeChain growing 2 first ∧
      env.run growing.own s w = (.result (.ok .null), t, u) ∧
      env.run (program.continuation .null first) s w = (.result (.ok .null), t, u) ∧
      t.scopes.globals.map (fun e => (e.1, e.2.text)) = [("seen", "x")] ∧
      s.scopes.Kept t.scopes := by
  intro env w s
  have unattended : env.Unattended := ⟨rfl, fun _ => rfl⟩
  have two : Kinds.countOf 2.5 = 2 := by
    rw [← Kinds.timesOf_eq_countOf]
    decide +kernel
  let number : Block Stock :=
    .mk ⟨"math_number", none, .number, [("NUM", .number (.float 2.5))], []⟩ [] none
  have counts : Counts env growing s w 2 s w (env.arrivals number.program s w) := by
    rw [← two]
    exact .input rfl rfl rfl rfl
  obtain ⟨⟨first, chain⟩, same, -, scopes⟩ :=
    repetition_sequences_scopes unattended (b := growing) rfl counts
  have seen : (env.run growing.own s w).2.1.scopes.globals.map (fun e => (e.1, e.2.text)) =
      [("seen", "x")] := by
    decide +kernel
  have ran : env.run growing.own s w = (.result (.ok .null), _, _) := rfl
  obtain ⟨-, kept⟩ := (scopes (Scopes.wellFormed_ofBindings [])).2 _ _ _ ran
  exact ⟨_, first, _, _, counts, rfl, chain, ran, (same first chain).symm.trans ran, seen, kept⟩

end Block

end BlockScript
