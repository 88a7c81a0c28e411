import BlockScript.Proofs.Lifecycle
/-!
Waiting, in a world and in its mirror image.

A mirror image shows the state of the collaborators through a map, and perhaps another date. Who
waits for the mirror image of an answer there gets what it would get here.
-/

namespace BlockScript

open Time (Timestamp)

variable {β γ ε ζ α : Type}

namespace World

/-- The world with the state of its collaborators mapped, and at another date. -/
def mirrored (f : ε → ζ) (date : Timestamp → Timestamp) (w : World ε) : World ζ :=
  { peers := f w.peers, origin := date w.origin, now := w.now, abortAt := w.abortAt,
    deadline := w.deadline }

end World

/-- The same answer, from somebody whose state is mapped. -/
def Answer.Mirrors (f : ε → ζ) : Answer ε α → Answer ζ α → Prop
  | .now r, .now q => q = r
  | .later ms r, .later ns q => ns = ms ∧ q = r
  | .once ready, .once ready' => ∀ e, ready' (f e) = (ready e).map fun x => (x.1, f x.2)
  | _, _ => False

namespace Environment

/-- The collaborators move alike, and raise the signal alike, if their state is mapped. -/
structure Mirrors (f : ε → ζ) (env : Environment β ε) (env' : Environment γ ζ) : Prop where
  aborted : ∀ e, env'.aborted (f e) = env.aborted e
  abort : ∀ e, env'.abort (f e) = f (env.abort e)
  react : ∀ e, env'.react (f e) = f (env.react e)

theorem passTime_mirrored (f : ε → ζ) (date : Timestamp → Timestamp)
    (due : Option (Nat × Except ScriptError α)) (w : World ε) :
    passTime due (w.mirrored f date) =
      ((passTime due w).1, (passTime due w).2.mirrored f date) := by
  obtain ⟨peers, origin, now, abortAt, deadline⟩ := w
  cases due with
  | none => cases deadline <;> rfl
  | some d =>
    obtain ⟨t, r⟩ := d
    cases deadline with
    | none => rfl
    | some limit => by_cases le : t ≤ limit <;> simp [passTime, World.mirrored, le]

namespace Mirrors

variable {f : ε → ζ} {env : Environment β ε} {env' : Environment γ ζ} (m : env.Mirrors f env')
  (date : Timestamp → Timestamp)
include m

theorem passAbort (due : Option Nat) (w : World ε) :
    env'.passAbort due (w.mirrored f date) = (env.passAbort due w).mirrored f date := by
  obtain ⟨peers, origin, now, abortAt, deadline⟩ := w
  cases abortAt with
  | none => rfl
  | some t =>
    by_cases due : (due.all (t ≤ ·) && deadline.all (t ≤ ·)) = true <;>
      simp [Environment.passAbort, World.mirrored, m.abort, due]

variable {ready : ε → Option (Except ScriptError α × ε)}
  {ready' : ζ → Option (Except ScriptError α × ζ)}
  (same : ∀ e, ready' (f e) = (ready e).map fun x => (x.1, f x.2))
include same

theorem settle (raced : Bool) (due : Option (Nat × Except ScriptError α)) (w : World ε) :
    env'.settle raced due ready' (w.mirrored f date) =
      ((env.settle raced due ready w).1, (env.settle raced due ready w).2.mirrored f date) := by
  have peers (u : World ε) : (u.mirrored f date).peers = f u.peers := rfl
  simp only [Environment.settle, m.passAbort, passTime_mirrored, peers, m.aborted, same]
  split
  · rfl
  · cases ready w.peers with
    | some x => rfl
    | none =>
      simp only [Option.map_none]
      split <;> rfl

theorem suspend (raced : Bool) (due : Option (Nat × Except ScriptError α)) (w : World ε) :
    env'.suspend raced due ready' (w.mirrored f date) =
      ((env.suspend raced due ready w).1, (env.suspend raced due ready w).2.mirrored f date) := by
  have past : (w.mirrored f date).deadline.any (· ≤ (w.mirrored f date).now) =
      w.deadline.any (· ≤ w.now) := rfl
  have moved : { w.mirrored f date with peers := env'.react (w.mirrored f date).peers } =
      World.mirrored f date { w with peers := env.react w.peers } := by
    have peers : (w.mirrored f date).peers = f w.peers := rfl
    rw [peers, m.react]
    rfl
  rw [suspend_eq_settle, suspend_eq_settle, past, moved]
  split
  · rfl
  · exact m.settle date same raced due { w with peers := env.react w.peers }

omit same in
theorem await {a : Answer ε α} {a' : Answer ζ α} (answers : a.Mirrors f a') (raced : Bool)
    (w : World ε) :
    env'.await raced a' (w.mirrored f date) =
      ((env.await raced a w).1, (env.await raced a w).2.mirrored f date) := by
  cases a with
  | now r =>
    cases a' with
    | now q =>
      cases answers
      rfl
    | later | once => cases answers
  | later ms r =>
    cases a' with
    | later ns q =>
      obtain ⟨rfl, rfl⟩ := answers
      simp only [Environment.await]
      split
      · rfl
      · exact m.suspend date (fun _ => rfl) raced _ w
    | now | once => cases answers
  | once ready =>
    cases a' with
    | once ready' => exact m.suspend date answers raced none w
    | now | later => cases answers

end Mirrors

end Environment

end BlockScript
