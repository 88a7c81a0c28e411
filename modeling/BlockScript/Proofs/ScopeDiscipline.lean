import BlockScript.Proofs.Arena
import BlockScript.Proofs.Composition
import BlockScript.Proofs.Recording
/-!
Scopes are closed on every exit.

Whatever a chain of standard blocks comes to (a value, an error of its own, a failed interception
or an abort), the arena it leaves is the one it found but for the bindings of two frames. An
evaluation that is cut off leaves scopes open, and these are dropped; so the last interception of a
run always sees the root alone.
-/

namespace BlockScript

variable {β ε α γ : Type} {env : Environment β ε}

namespace Environment

/-- The states a program passes through. -/
inductive Visits (env : Environment β ε) {α : Type} :
    Program β α → RunState → World ε → RunState → World ε → Prop
  | here (p : Program β α) (s : RunState) (w : World ε) : Visits env p s w s w
  | later {a : Action β} {resume : Except ScriptError a.Reply → Program β α} {s t s' : RunState}
      {w v w' : World ε} {reply : Except ScriptError a.Reply}
      (step : env.perform a s w = (.result reply, t, v))
      (rest : Visits env (resume reply) t v s' w') : Visits env (.act a resume) s w s' w'

theorem visits_done {r : Except ScriptError α} {s s' : RunState} {w w' : World ε}
    (h : env.Visits (.done r : Program β α) s w s' w') : s' = s := by
  cases h with
  | here => rfl

theorem visits_perform {a : Action β} {s s' : RunState} {w w' : World ε}
    (h : env.Visits (Program.perform a) s w s' w') :
    s' = s ∨ s' = (env.perform a s w).2.1 := by
  cases h with
  | here => exact .inl rfl
  | later step rest =>
    have eq := visits_done rest
    rw [step]
    exact .inr eq

/-- A sequence passes through the states of its first part and then through those of its second. -/
theorem visits_bind {p : Program β α} {f : α → Program β γ} {s s' : RunState} {w w' : World ε}
    (h : env.Visits (p >>= f) s w s' w') :
    env.Visits p s w s' w' ∨
    ∃ a t v, env.run p s w = (.result (.ok a), t, v) ∧ env.Visits (f a) t v s' w' := by
  change env.Visits (p.bind f) s w s' w' at h
  induction p generalizing s w with
  | done r =>
    cases r with
    | ok a => exact .inr ⟨a, s, w, rfl, h⟩
    | error e =>
      cases h
      exact .inl (.here _ _ _)
  | act a resume ih =>
    cases h with
    | here => exact .inl (.here _ _ _)
    | later step rest =>
      obtain first | ⟨a, t, v, ran, second⟩ := ih _ rest
      · exact .inl (.later step first)
      · exact .inr ⟨a, t, v, by simpa only [run, step] using ran, second⟩

theorem visits_closing {previous : Nat} {p : Program β α} {s s' : RunState} {w w' : World ε}
    (h : env.Visits (p.closing previous) s w s' w') :
    env.Visits p s w s' w' ∨
    ∃ r t v, env.run p s w = (.result r, t, v) ∧
      s' = { t with scopes := t.scopes.closeScope previous } := by
  induction p generalizing s w with
  | done r =>
    cases h with
    | here => exact .inl (.here _ _ _)
    | later step rest =>
      have eq := visits_done rest
      cases step
      exact .inr ⟨r, s, _, rfl, eq⟩
  | act a resume ih =>
    cases h with
    | here => exact .inl (.here _ _ _)
    | later step rest =>
      obtain first | ⟨r, t, v, ran, eq⟩ := ih _ rest
      · exact .inl (.later step first)
      · exact .inr ⟨r, t, v, by simpa only [run, step] using ran, eq⟩

theorem visits_inScope {p : Program β α} {s s' : RunState} {w w' : World ε}
    (h : env.Visits p.inScope s w s' w') :
    s' = s ∨ (∃ v, env.Visits p { s with scopes := s.scopes.openScope } w s' v) ∨
    ∃ r t v, env.run p { s with scopes := s.scopes.openScope } w = (.result r, t, v) ∧
      s' = { t with scopes := t.scopes.closeScope s.scopes.current } := by
  obtain first | ⟨a, t, v, ran, second⟩ := visits_bind h
  · obtain eq | eq := visits_perform first
    · exact .inl eq
    · subst eq
      exact .inr (.inl ⟨w, .here _ _ _⟩)
  · rw [run_perform] at ran
    cases ran
    obtain inner | closed := visits_closing second
    · exact .inr (.inl ⟨_, inner⟩)
    · exact .inr (.inr closed)

/-- An action that is cut off changes nothing of the run. -/
theorem perform_cut {a : Action β} {s t : RunState} {w v : World ε}
    (h : env.perform a s w = (.cut, t, v)) : t = s := by
  cases a with
  | stop reason block =>
    simp only [perform] at h
    split at h
    · simp at h
    · simp only [Prod.mk.injEq] at h
      exact h.2.1.symm
  | spawn name presets =>
    simp only [perform] at h
    split at h
    · simp at h
    · simp only [Prod.mk.injEq] at h
      exact h.2.1.symm
  | call | wait | sleep | reserve =>
    simp only [perform, Prod.mk.injEq] at h
    exact h.2.1.symm
  | checkAbort | lookup | assign | assignGlobal | openScope | openRootScope | closeScope | attach
  | scopeDepth | readLog | crash => simp [perform] at h

theorem run_cut_visits {p : Program β α} {s s' : RunState} {w w' : World ε}
    (h : env.run p s w = (.cut, s', w')) : ∃ v, env.Visits p s w s' v := by
  induction p generalizing s w with
  | done r => simp [run] at h
  | act a resume ih =>
    simp only [run] at h
    split at h
    · next reply t v step =>
      obtain ⟨u, visit⟩ := ih reply h
      exact ⟨u, .later step visit⟩
    · next t v step =>
      cases h
      rw [perform_cut step]
      exact ⟨w, .here _ _ _⟩
    · simp at h
    · simp at h

theorem perform_kept {a : Action β} (plain : a.Plain) {s : RunState} (wf : s.scopes.WellFormed)
    (w : World ε) : s.scopes.Kept (env.perform a s w).2.1.scopes := by
  cases a with
  | stop reason block =>
    simp only [perform]
    split <;> exact .refl _
  | assign name value => exact wf.kept_set name value
  | assignGlobal name value => exact wf.kept_setGlobal name value
  | spawn name presets =>
    simp only [perform]
    split <;> exact .refl _
  | checkAbort | lookup | attach | call | reserve | crash => exact .refl _
  | openScope | openRootScope | closeScope | wait | sleep | scopeDepth | readLog => cases plain

end Environment

namespace Program.Orderly

open Environment

/-- The arena a program leaves is the one it found, but for the bindings of the current frame and
of the root. -/
theorem kept {p : Program β α} (h : p.Orderly) {s s' : RunState} {w w' : World ε}
    {r : Except ScriptError α} (wf : s.scopes.WellFormed)
    (ran : env.run p s w = (.result r, s', w')) : s.scopes.Kept s'.scopes := by
  induction h generalizing s s' w w' with
  | done r =>
    cases ran
    exact .refl _
  | act a plain =>
    rw [run_perform] at ran
    have kept : s.scopes.Kept (env.perform a s w).2.1.scopes := perform_kept plain wf w
    rwa [ran] at kept
  | bind first rest ihf ihr =>
    obtain ⟨a, t, v, one, two⟩ | ⟨e, rfl, one⟩ := run_bind_result ran
    · have kept := ihf wf one
      exact kept.trans (ihr a (kept.wellFormed wf) two)
    · exact ihf wf one
  | inScope body ih =>
    -- The body keeps the arena with the new frame in it, so closing that frame restores the old.
    obtain ⟨t, inner, rfl⟩ := run_inScope_result ran
    exact wf.kept_closeScope (ih (wf.openUnder wf.current_lt) inner)

/-- In every state on the way the arena is well formed. -/
theorem visits_wellFormed {p : Program β α} (h : p.Orderly) {s s' : RunState} {w w' : World ε}
    (wf : s.scopes.WellFormed) (visit : env.Visits p s w s' w') : s'.scopes.WellFormed := by
  induction h generalizing s w w' with
  | done r => exact visits_done visit ▸ wf
  | act a plain =>
    obtain rfl | rfl := visits_perform visit
    · exact wf
    · exact (perform_kept plain wf w).wellFormed wf
  | bind first rest ihf ihr =>
    obtain one | ⟨a, t, v, ran, two⟩ := visits_bind visit
    · exact ihf wf one
    · exact ihr a ((first.kept wf ran).wellFormed wf) two
  | inScope body ih =>
    have opened : s.scopes.openScope.WellFormed := wf.openUnder wf.current_lt
    -- Before the scope is opened, inside it, and after it is closed.
    obtain rfl | ⟨v, inner⟩ | ⟨r, t, v, ran, rfl⟩ := visits_inScope visit
    · exact wf
    · exact ih opened inner
    · exact (wf.kept_closeScope (body.kept opened ran)).wellFormed wf

end Program.Orderly

namespace Script

theorem wellFormed_initial (script : Script β) (env : Environment β ε) (w : World ε) :
    (script.initial env w).scopes.WellFormed :=
  Scopes.wellFormed_ofBindings _

/-- After the root chain only the root is left, also when the chain was cut off. -/
theorem evaluateRoot_scopes {script : Script Stock} {env : Environment Stock ε} {w w' : World ε}
    {r : Except ScriptError Value} {s : RunState}
    (h : script.evaluateRoot env (script.initial env w) w = some (r, s, w')) :
    s.scopes.depth = 1 ∧ s.scopes.current = 0 := by
  have wf := script.wellFormed_initial env w
  have orderly := script.root.program_orderly
  obtain ⟨u, ran⟩ | ⟨t, u, ran, -, rfl⟩ := evaluateRoot_ran h
  · have kept := orderly.kept wf ran
    exact ⟨kept.depth, kept.current⟩
  · obtain ⟨x, visit⟩ := Environment.run_cut_visits ran
    have wf' := orderly.visits_wellFormed wf visit
    rw [wf'.unwind_eq]
    exact ⟨rfl, rfl⟩

end Script

/-- In a run every arena is well formed, so a chain that returns from one keeps it. The last
interception of a run is told of the root alone, and there is no other of its kind. -/
theorem scopes_closed_on_every_exit {ε : Type} (env : Environment Stock ε) :
    (∀ (script : Script Stock) w s v,
      env.Visits script.root.program (script.initial env w) (script.limited w) s v →
      s.scopes.WellFormed) ∧
    (∀ (b : Block Stock) s w r s' w', s.scopes.WellFormed →
      env.run b.program s w = (.result r, s', w') → s.scopes.Kept s'.scopes) ∧
    (∀ (script : Script Stock) w r s w',
      script.evaluateRoot env (script.initial env w) w = some (r, s, w') →
      s.scopes.depth = 1 ∧ s.scopes.current = 0) ∧
    (∀ (script : Script Stock) w r w', env.debugger.isSome → script.run env w = some (r, w') →
      ∃ told, script.run env.recorded (w.beside []) = some (r, w'.beside told) ∧
        (∃ scopes, .stopped .finish script.root scopes ∈ told) ∧
        ∀ block scopes, .stopped .finish block scopes ∈ told →
          block = script.root ∧ scopes.depth = 1 ∧ scopes.current = 0) := by
  refine ⟨?_, ?_, ?_, ?_⟩
  · intro script w s v visit
    exact script.root.program_orderly.visits_wellFormed (script.wellFormed_initial env w) visit
  · intro b s w r s' w' wf ran
    exact b.program_orderly.kept wf ran
  · intro script w r s w' ended
    exact script.evaluateRoot_scopes ended
  · intro script w r w' watched ended
    obtain ⟨d, hd⟩ := Option.isSome_iff_exists.mp watched
    obtain ⟨evaluated, s, v, root, recorded⟩ := script.run_recorded env hd ended []
    refine ⟨_, recorded, ⟨s.scopes, by simp⟩, ?_⟩
    intro block scopes told
    simp only [List.nil_append, List.mem_append, List.mem_cons, Notice.stopped.injEq,
      reduceCtorEq, List.not_mem_nil, or_false, true_and] at told
    obtain during | ⟨rfl, rfl⟩ := told
    · exact absurd rfl (script.root.program_orderly.during _ during)
    · exact ⟨rfl, script.evaluateRoot_scopes root⟩

/-- Two scopes, one inside the other, around a call of a service. -/
def nestedCall : Block Stock :=
  .mk ⟨"controls_scope", some "outer", .scope, [], []⟩
    [("DO", .mk ⟨"controls_scope", some "inner", .scope, [], []⟩
      [("DO", .mk ⟨"site_call", some "call", .siteCall, [("SERVICE", .string "hang")], []⟩ [] none)]
      none)]
    none

/-- A site whose services never answer, watched by a debugger that lets everything pass. -/
def unanswering : Environment Stock Unit where
  site := { Site.bare [] with call := fun _ _ e => (.never, e) }
  debugger := some { intercept := fun _ _ _ e => (.now (.ok ()), e), finished := fun _ e => e }
  aborted _ := false
  abort e := e
  react e := e

/-- A run that is cut off inside two scopes ends with the root alone. -/
theorem cut_off_inside_scopes :
    let script : Script Stock := ⟨nestedCall, { timeout := some 5 }⟩
    let w : World Unit := { peers := (), origin := ⟨0, 0⟩ }
    ∃ r w' told scopes, script.run unanswering w = some (r, w') ∧ r.error = some (.timeout 5) ∧
      script.run unanswering.recorded (w.beside []) = some (r, w'.beside told) ∧
      .stopped .finish nestedCall scopes ∈ told ∧ scopes.depth = 1 ∧ scopes.current = 0 := by
  intro script w
  have timedOut : (script.run unanswering w).map (fun x => x.1.error) =
      some (some (.timeout 5)) := by
    decide +kernel
  obtain ⟨⟨r, w'⟩, ended, error⟩ := Option.map_eq_some_iff.mp timedOut
  obtain ⟨told, recorded, ⟨scopes, last⟩, all⟩ :=
    (scopes_closed_on_every_exit unanswering).2.2.2 script w r w' rfl ended
  exact ⟨r, w', told, scopes, ended, error, recorded, last, (all _ _ last).2⟩

end BlockScript
