import BlockScript.Proofs.Composition
import BlockScript.Proofs.Lifecycle
/-!
Where the engine can crash.

Whoever is asked or waited for never crashes it. What does is a block that counts its branches
beyond 64 bits, or one that says it has more arguments than there is room for. A tree without such
blocks runs without a crash, whatever its surroundings do.
-/

namespace BlockScript

variable {β ε α : Type}

namespace Action

/-- Actions that no state of the surroundings makes a crash. -/
def Bearable (site : Site ε) : Action β → Prop
  | .reserve count => ∀ e, site.grants count e = true
  | .crash => False
  | _ => True

end Action

namespace Environment

variable {env : Environment β ε}

theorem passTime_isCrash (due : Option (Nat × Except ScriptError α)) (w : World ε) :
    (passTime due w).1.isCrash = false := by
  obtain ⟨peers, origin, now, abortAt, limit⟩ := w
  rcases due with _ | ⟨t, r⟩
  · cases limit <;> rfl
  · cases limit with
    | none => rfl
    | some d =>
      simp only [passTime]
      split <;> rfl

theorem suspend_isCrash (raced : Bool) (due : Option (Nat × Except ScriptError α))
    (ready : ε → Option (Except ScriptError α × ε)) (w : World ε) :
    (env.suspend raced due ready w).1.isCrash = false := by
  rw [suspend_eq_settle]
  split
  · rfl
  · simp only [settle]
    split
    · rfl
    · split
      · rfl
      · split
        · rfl
        · exact passTime_isCrash due _

theorem await_isCrash (raced : Bool) (answer : Answer ε α) (w : World ε) :
    (env.await raced answer w).1.isCrash = false := by
  cases answer with
  | now r => rfl
  | later ms r =>
    simp only [await]
    split
    · rfl
    · exact suspend_isCrash raced _ _ w
  | once ready => exact suspend_isCrash raced none ready w

theorem race_isCrash (ask : ε → Answer ε α × ε) (w : World ε) :
    (env.race ask w).1.isCrash = false := by
  simp only [race]
  split
  · rfl
  · exact await_isCrash true _ _

theorem perform_isCrash {a : Action β} (bearable : a.Bearable env.site) (s : RunState)
    (w : World ε) : (env.perform a s w).1.isCrash = false := by
  cases a with
  | stop reason block =>
    simp only [perform]
    split
    · rfl
    · exact race_isCrash _ w
  | spawn name presets =>
    have raced := env.race_isCrash (env.site.spawn name presets) w
    simp only [perform]
    split
    · rfl
    · exact raced
  | call service args => exact race_isCrash _ w
  | wait ms => exact race_isCrash (fun peers => (.later ms (.ok ()), peers)) w
  | sleep ms => exact await_isCrash false (.later ms (.ok ())) w
  | reserve count =>
    have granted : env.site.grants count w.peers = true := bearable w.peers
    simp only [perform, granted, ↓reduceIte]
    rfl
  | crash => exact bearable.elim
  | _ => rfl

/-- A program of bearable actions does not crash. -/
theorem run_isCrash {p : Program β α} (bearable : p.All (Action.Bearable env.site))
    (s : RunState) (w : World ε) : (env.run p s w).1.isCrash = false := by
  induction p generalizing s w with
  | done r => rfl
  | act a resume ih =>
    have step := perform_isCrash bearable.1 s w
    rcases performed : env.perform a s w with ⟨ending, t, v⟩
    rw [performed] at step
    simp only [run, performed]
    cases ending with
    | result reply => exact ih reply (bearable.2 reply) t v
    | cut | stuck => rfl
    | crash => exact step

end Environment

namespace Block

/-- A block that asks too much of the engine: more branches than it counts, or more arguments than
there is always room for. -/
def Overtaxes (site : Site ε) (b : Block Stock) : Prop :=
  (b.header.behavior = .branches ∧ UInt64.size ≤ b.header.count "elseIfCount" + 1) ∨
  (b.header.behavior = .siteCall ∧ ∃ e, site.grants (b.header.count "argCount") e = false)

theorem bearable_of_not_overtaxes {site : Site ε} {b : Block Stock} (fits : ¬b.Overtaxes site)
    {a : Action Stock} (performs : b.header.behavior.Performs b.header a) : a.Bearable site := by
  generalize kind : b.header.behavior = k at performs
  cases k with
  | branches => exact absurd (.inl ⟨kind, Nat.not_lt.mp performs.1⟩) fits
  | siteCall =>
    obtain rfl | rfl | ⟨service, args, rfl⟩ := performs
    · trivial
    · intro e
      cases granted : site.grants (b.header.count "argCount") e with
      | true => rfl
      | false => exact absurd (.inr ⟨kind, e, granted⟩) fits
    · trivial
  | getVariable =>
    obtain ⟨name, -, rfl⟩ := performs
    trivial
  | setVariable | setGlobal =>
    obtain ⟨name, value, -, rfl⟩ := performs
    trivial
  | repetition =>
    cases performs
    trivial
  | logTag =>
    obtain ⟨key, value, rfl⟩ := performs
    trivial
  | _ => cases performs

/-- A tree crashes only if one of its blocks asks too much. -/
theorem exists_overtaxing {env : Environment Stock ε} {b : Block Stock} {s : RunState}
    {w : World ε} (crashed : (env.run b.program s w).1.isCrash) :
    ∃ d, b.Contains d ∧ d.Overtaxes env.site := by
  apply Classical.byContradiction
  intro none
  have fits (d : Block Stock) (inside : b.Contains d) : ¬d.Overtaxes env.site :=
    fun overtaxes => none ⟨d, inside, overtaxes⟩
  have c : Program.Compositional (fun _ (p : Program Stock _) => p.All (Action.Bearable env.site))
      (Action.Bearable env.site) := Program.compositional_all trivial fun _ => trivial
  have bearable : b.program.All (Action.Bearable env.site) :=
    b.program_holds c (fun d => c.enter (b := d) trivial trivial)
      (fun d => c.act (.stop .leave d) trivial)
      (fun _ _ _ _ _ => c.spawnChild trivial trivial fun _ => trivial)
      fun d inside _ performs => bearable_of_not_overtaxes (fits d inside) performs
  rw [Environment.run_isCrash bearable s w] at crashed
  cases crashed

/-- A call with the largest number of arguments, none of which is connected. -/
def excessive : Block Stock :=
  .mk ⟨"site_call", none, .siteCall, [("SERVICE", .string "echo")],
    [⟨Mutation.defaultDomain, "argCount", .number (.nat (UInt64.size - 1))⟩]⟩ [] none

end Block

namespace Script

variable {env : Environment Stock ε} {script : Script Stock} {w : World ε}

/-- A run crashes only in a tree with a block that asks too much. -/
theorem crashes_overtaxed (crashes : script.crashes env w) :
    ∃ d, script.root.Contains d ∧ d.Overtaxes env.site :=
  Block.exists_overtaxing crashes

end Script

end BlockScript
