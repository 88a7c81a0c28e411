import BlockScript.Proofs.Moments
/-!
A run under a deadline, and the same run without one.

A program cannot tell that there is a deadline until it is cut off. What it is cut off in is then
the wait for an answer; up to the question the two runs are one.
-/

namespace BlockScript

variable {β ε α : Type}

namespace World

/-- The same world without a deadline. -/
def lifted (w : World ε) : World ε :=
  { w with deadline := none }

end World

namespace Environment

variable {env : Environment β ε}

/-- A deadline keeps a scheduled abort from happening only if it comes first, and then nothing that
is due after the abort comes before it. -/
theorem passAbort_lifted (due : Option Nat) (w : World ε) :
    env.passAbort due w.lifted = (env.passAbort due w).lifted ∨
    ∃ limit t, w.deadline = some limit ∧ limit < t ∧ due.all (t ≤ ·) = true ∧
      env.passAbort due w = w := by
  unfold passAbort
  cases scheduled : w.abortAt with
  | none => exact .inl (by simp only [World.lifted, scheduled])
  | some t =>
    simp only [World.lifted, scheduled, Option.all_none, Bool.and_true]
    by_cases first : due.all (t ≤ ·) = true
    · by_cases before : w.deadline.all (t ≤ ·) = true
      · exact .inl (by simp only [first, before, Bool.and_self, ↓reduceIte])
      · cases stands : w.deadline with
        | none => simp [stands] at before
        | some limit =>
          simp only [stands, Option.all_some, decide_eq_true_eq, Nat.not_le] at before
          refine .inr ⟨limit, t, rfl, before, first, ?_⟩
          rw [if_neg]
          simp only [Option.all_some, Bool.and_eq_true, decide_eq_true_eq, not_and]
          omega
    · exact .inl (by simp only [first, scheduled, Bool.false_and, Bool.false_eq_true, ↓reduceIte])

theorem passTime_lifted {due : Option (Nat × Except ScriptError α)} {w v : World ε}
    {r : Except ScriptError α} (h : passTime due w = (.result r, v)) :
    passTime due w.lifted = (.result r, v.lifted) := by
  obtain ⟨t, rfl⟩ := passTime_result h
  cases stands : w.deadline with
  | none =>
    simp only [passTime, stands] at h
    cases h
    rfl
  | some limit =>
    simp only [passTime, stands] at h
    split at h
    · cases h
      rfl
    · cases h

theorem settle_lifted {raced : Bool} {due : Option (Nat × Except ScriptError α)}
    {ready : ε → Option (Except ScriptError α × ε)} {w v : World ε} {r : Except ScriptError α}
    (h : env.settle raced due ready w = (.result r, v)) :
    env.settle raced due ready w.lifted = (.result r, v.lifted) := by
  have peers : w.lifted.peers = w.peers := rfl
  unfold settle at h ⊢
  rw [peers]
  by_cases signal : (raced && env.aborted w.peers) = true
  · rw [if_pos signal] at h ⊢
    cases h
    rfl
  · rw [if_neg signal] at h ⊢
    cases found : ready w.peers with
    | some x =>
      rw [found] at h
      cases h
      rfl
    | none =>
      rw [found] at h
      obtain same | ⟨limit, t, stands, late, first, still⟩ :=
        env.passAbort_lifted (due.map Prod.fst) w
      · simp only [same] at h ⊢
        generalize env.passAbort (due.map Prod.fst) w = u at h ⊢
        have peers : u.lifted.peers = u.peers := rfl
        rw [peers]
        by_cases raised : (raced && env.aborted u.peers) = true
        · rw [if_pos raised] at h ⊢
          cases h
          rfl
        · rw [if_neg raised] at h ⊢
          exact passTime_lifted h
      · -- The deadline comes before the abort, and so before anything that was due.
        simp only [still, signal, Bool.false_eq_true, ↓reduceIte] at h
        obtain ⟨u, rfl⟩ := passTime_result h
        have order : t ≤ u := by simpa using first
        simp only [passTime, stands] at h
        rw [if_neg (by omega)] at h
        cases h

theorem suspend_lifted {raced : Bool} {due : Option (Nat × Except ScriptError α)}
    {ready : ε → Option (Except ScriptError α × ε)} {w v : World ε} {r : Except ScriptError α}
    (h : env.suspend raced due ready w = (.result r, v)) :
    env.suspend raced due ready w.lifted = (.result r, v.lifted) := by
  have open_ended : ¬ w.lifted.deadline.any (· ≤ w.lifted.now) = true := nofun
  rw [suspend_eq_settle] at h ⊢
  rw [if_neg open_ended]
  split at h
  · cases h
  · exact settle_lifted h

theorem await_lifted {raced : Bool} {answer : Answer ε α} {w v : World ε}
    {r : Except ScriptError α} (h : env.await raced answer w = (.result r, v)) :
    env.await raced answer w.lifted = (.result r, v.lifted) := by
  cases answer with
  | now q =>
    cases h
    rfl
  | later ms q =>
    simp only [await] at h ⊢
    split at h
    · next soon =>
      rw [if_pos soon]
      cases h
      rfl
    · next late =>
      rw [if_neg late]
      exact suspend_lifted h
  | once ready => exact suspend_lifted h

theorem race_lifted {ask : ε → Answer ε α × ε} {w v : World ε} {r : Except ScriptError α}
    (h : env.race ask w = (.result r, v)) : env.race ask w.lifted = (.result r, v.lifted) := by
  have peers : w.lifted.peers = w.peers := rfl
  simp only [race, peers] at h ⊢
  split at h
  · next signal =>
    rw [if_pos signal]
    cases h
    rfl
  · next quiet =>
    rw [if_neg quiet]
    exact await_lifted h

/-- An action that comes to something under a deadline comes to the same without one, and the same
happens. -/
theorem perform_lifted {a : Action β} {s t : RunState} {w v : World ε}
    {r : Except ScriptError a.Reply} (h : env.perform a s w = (.result r, t, v)) :
    env.perform a s w.lifted = (.result r, t, v.lifted) ∧
      env.events a s w.lifted = env.events a s w := by
  cases a with
  | stop reason block =>
    refine ⟨?_, rfl⟩
    simp only [perform] at h ⊢
    cases watched : env.debugger with
    | none =>
      simp only [watched] at h
      cases h
      rfl
    | some d =>
      simp only [watched] at h
      rcases raced : env.race (d.intercept reason block s.scopes) w with ⟨ending, u⟩
      rw [raced] at h
      cases h
      simp only [race_lifted raced]
  | call service args =>
    refine ⟨?_, rfl⟩
    simp only [perform] at h ⊢
    rcases raced : env.race (env.site.call service args) w with ⟨ending, u⟩
    rw [raced] at h
    cases h
    simp only [race_lifted raced]
  | spawn name presets =>
    simp only [perform] at h
    rcases raced : env.race (env.site.spawn name presets) w with ⟨ending, u⟩
    rw [raced] at h
    cases ending with
    | result q =>
      have same := race_lifted raced
      refine ⟨?_, by simp only [events, effects, raced, same]; rfl⟩
      cases q with
      | ok child =>
        cases h
        simp only [perform, same]
      | error e =>
        cases h
        simp only [perform, same]
    | cut | stuck | crash => cases h
  | wait ms =>
    refine ⟨?_, rfl⟩
    simp only [perform] at h ⊢
    rcases raced : env.race (fun peers => (Answer.later ms (.ok ()), peers)) w with ⟨ending, u⟩
    rw [raced] at h
    cases h
    simp only [race_lifted raced]
  | sleep ms =>
    refine ⟨?_, rfl⟩
    simp only [perform] at h ⊢
    rcases awaited : env.await false (Answer.later ms (.ok ())) w with ⟨ending, u⟩
    rw [awaited] at h
    cases h
    simp only [await_lifted awaited]
  | reserve count =>
    refine ⟨?_, rfl⟩
    simp only [perform, Prod.mk.injEq] at h
    obtain ⟨granted, rfl, rfl⟩ := h
    exact congrArg (·, s, w.lifted) granted
  | crash => cases h
  | _ =>
    cases h
    exact ⟨rfl, rfl⟩

variable {p q : Program β α} {s t : RunState} {w v : World ε} {past : List (Event β)}

theorem Reaches.lifted (h : env.Reaches p s w past q t v) :
    env.Reaches p s w.lifted past q t v.lifted := by
  induction h with
  | here => exact .here _ _ _
  | later step rest ih =>
    obtain ⟨same, events⟩ := perform_lifted step
    rw [← events]
    exact .later same ih

/-- What can be cut off is the wait for an answer, after the question and before anything else. -/
theorem asked_of_cut {a : Action β} (plain : a.Plain) (h : env.perform a s w = (.cut, t, v)) :
    ∃ n, env.notices a s w.peers = [n] ∧ env.effects a s w = [] := by
  have quiet {γ : Type} {ask : ε → Answer ε γ × ε} (cut : (env.race ask w).1 = .cut) :
      env.aborted w.peers = false := by
    by_contra raised
    rw [Bool.not_eq_false] at raised
    simp only [race, raised, ↓reduceIte] at cut
    cases cut
  cases a with
  | stop reason block =>
    simp only [perform] at h
    cases watched : env.debugger with
    | none =>
      simp only [watched] at h
      cases h
    | some d =>
      simp only [watched, Prod.mk.injEq] at h
      exact ⟨.stopped reason block s.scopes, by simp [notices, quiet h.1, watched], rfl⟩
  | call service args =>
    simp only [perform, Prod.mk.injEq] at h
    exact ⟨.called service args, by simp [notices, quiet h.1], rfl⟩
  | spawn name presets =>
    have cut : (env.race (env.site.spawn name presets) w).1 = .cut := by
      simp only [perform] at h
      split at h
      · cases h
      · exact (Prod.mk.inj h).1
    exact ⟨.spawned name presets, by simp [notices, quiet cut], by simp [effects, cut]⟩
  | reserve count =>
    simp only [perform] at h
    split at h <;> cases h
  | checkAbort | lookup | assign | assignGlobal | attach | crash => cases h
  | openScope | openRootScope | closeScope | wait | sleep | scopeDepth | readLog => cases plain

/-- What happens until a program is cut off happens without the deadline too, and ends with a
question that is still open. -/
theorem history_of_cut
    (usual : p.All fun a => a.Plain ∨ a = .openScope ∨ ∃ previous, a = .closeScope previous)
    (cut : env.run p s w = (.cut, t, v)) :
    ∃ past n later, env.history p s w = past ++ [.told n] ∧
      env.history p s w.lifted = past ++ .told n :: later := by
  obtain ⟨past, a, u, meets, stopped⟩ := exists_meets_of_cut cut
  have ends := (meets.cut stopped).2
  obtain ⟨resume, reached⟩ := meets
  have plain : a.Plain := by
    obtain plain | rfl | ⟨previous, rfl⟩ := (reached.all usual).1
    · exact plain
    · cases stopped
    · cases stopped
  obtain ⟨n, asked, nothing⟩ := asked_of_cut plain stopped
  have goes := reached.lifted.history_eq
  rw [events, asked, nothing, List.append_nil] at ends
  have asked' : env.notices a t u.lifted.peers = [n] := asked
  simp only [history, events, asked', List.map_cons, List.map_nil, List.cons_append,
    List.nil_append] at goes
  exact ⟨past, n, _, ends, goes⟩

end Environment

end BlockScript
