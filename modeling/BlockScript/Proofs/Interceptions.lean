import BlockScript.Proofs.Crashes
import BlockScript.Proofs.SlotReading
import BlockScript.Proofs.Waiting
/-!
The interceptions of a watched run.

What a chain tells a debugger that lets every stop pass is a trace of the chain or, when it fails,
a broken one. After that comes one last interception, for the first block, and then once the news
that the run is over. A crash breaks the trace too, and nothing comes after it.
-/

namespace BlockScript

variable {ε : Type}

namespace Environment

/-- Watched by a debugger that lets every stop pass, and never aborted. -/
structure Undisturbed (env : Environment Stock ε) (d : Debugger Stock ε) : Prop where
  watched : env.debugger = some d
  consents : d.Consents
  quiet : ∀ e, env.aborted e = false

namespace Undisturbed

variable {env : Environment Stock ε} {d : Debugger Stock ε} (h : env.Undisturbed d)
include h

theorem run_checkAbort (s : RunState) (w : World ε) :
    env.run (Program.perform .checkAbort) s w = (.result (.ok ()), s, w) := by
  change (Ending.result (if env.aborted w.peers then _ else _), s, w) = _
  rw [h.quiet]
  rfl

theorem stopsOf_stop (reason : StopReason) (b : Block Stock) (s : RunState) (w : World ε) :
    env.stopsOf (Program.perform (.stop reason b)) s w = [(reason, b)] := by
  rw [stopsOf_perform]
  simp [notices, h.quiet, h.watched, stops]

theorem stop_passes {reason : StopReason} {b : Block Stock} {s s' : RunState} {w w' : World ε}
    {r : Except Interruption Unit}
    (ran : env.run (Program.perform (.stop reason b)) s w = (.of r, s', w')) : r = .ok () := by
  have performed := (env.run_perform (.stop reason b) s w).symm.trans ran
  cases r with
  | ok x => rfl
  | error i =>
    cases i with
    | error e =>
      simp only [perform, h.watched, race, h.quiet, Bool.false_eq_true, ↓reduceIte,
        Prod.mk.injEq] at performed
      cases await_consents h.quiet (h.consents reason b s.scopes w.peers)
        (Prod.ext performed.1 rfl)
    | crash =>
      have bearable : (Action.stop reason b).Bearable env.site := trivial
      have intact := perform_isCrash bearable s w
      rw [performed] at intact
      cases intact

/-- A stop that a debugger lets pass tells of itself, and what follows it runs. -/
theorem after_stop {α : Type} {places : Place ε} {past : List Stop} {reason : StopReason}
    {b : Block Stock} {rest : Program Stock α} {s s' : RunState} {w w' : World ε}
    {r : Except Interruption α}
    (within : env.Within places past (Program.perform (.stop reason b) >>= fun _ => rest) s w)
    (ran : env.run (Program.perform (.stop reason b) >>= fun _ => rest) s w = (.of r, s', w')) :
    ∃ t v, env.Within places (past ++ [(reason, b)]) rest t v ∧
      env.run rest t v = (.of r, s', w') ∧
      env.stopsOf (Program.perform (.stop reason b) >>= fun _ => rest) s w =
        (reason, b) :: env.stopsOf rest t v := by
  obtain ⟨x, t, v, first, second⟩ | ⟨i, -, failed⟩ := run_bind_of ran
  · refine ⟨t, v, ?_, second, ?_⟩
    · have onward := within.second first
      rwa [h.stopsOf_stop] at onward
    · rw [stopsOf_bind_ok first, h.stopsOf_stop]
      rfl
  · cases h.stop_passes failed

/-- After the signal is looked at and the block entered, its own evaluation follows. -/
theorem after_enter {places : Place ε} {past : List Stop} {b : Block Stock} {s s' : RunState}
    {w w' : World ε} {r : Except Interruption Value}
    (within : env.Within places past b.program s w)
    (ran : env.run b.program s w = (.of r, s', w')) :
    ∃ t v, env.Within places (past ++ [(.enter, b)]) b.evaluation t v ∧
      env.run b.evaluation t v = (.of r, s', w') ∧
      env.stopsOf b.program s w = (.enter, b) :: env.stopsOf b.evaluation t v := by
  rw [Block.program_eq] at within ran ⊢
  have looked := h.run_checkAbort s w
  have told : env.stopsOf (Program.perform .checkAbort) s w = [] := by
    rw [env.stopsOf_perform, env.stops_notices_nil .checkAbort trivial]
  have onward := within.second looked
  rw [told, List.append_nil] at onward
  rw [run_bind, looked] at ran
  rw [stopsOf_bind_ok looked, told]
  exact h.after_stop onward ran

section
variable {places : Place ε} {b : Block Stock} {past : List Stop} {s s' : RunState}
  {w w' : World ε} {r : Except Interruption Value}

omit h in
/-- When the own evaluation of a block is interrupted, the block broke off or one of its inputs
did. -/
theorem failed_recounts (follows : env.Follows places b.inputs b.own b.plan) {i : Interruption}
    (within : env.Within places (past ++ [(.enter, b)]) b.own s w)
    (failed : env.run b.own s w = (.of (.error i), s', w')) :
    ∃ path, Broken (env.account places) past b i path ((.enter, b) :: env.stopsOf b.own s w) := by
  have own : env.account places (past ++ [(.enter, b)]) b (.error i) (env.stopsOf b.own s w) :=
    ⟨s, w, s', w', within.here, failed, rfl⟩
  have progress := follows _ s w _ s' w' within failed
  generalize env.stopsOf b.own s w = T at own progress ⊢
  cases progress with
  | raised reads inside => exact ⟨_, .own ⟨_, _, reads, inside, own⟩⟩
  | broken reads inside found broken =>
    rw [List.append_assoc] at broken
    exact ⟨_, .input reads inside found broken⟩

/-- When the own evaluation of a block comes to a value, the block is left and its successor
follows. -/
theorem left_recounts {reads : List Reading} {T : List Stop} {x : Value}
    (after : ∀ c, b.next = some c → env.Carries places c.program c)
    (complete : b.plan.Leads reads .stop)
    (inside : Inside (env.account places) (past ++ [(.enter, b)]) b.inputs reads T)
    (own : env.account places (past ++ [(.enter, b)]) b (.ok x) T)
    (within : env.Within places (past ++ [(.enter, b)] ++ T)
      (Program.perform (.stop .leave b) >>= fun _ => Block.program.continuation x b.next) s w)
    (ran : env.run (Program.perform (.stop .leave b) >>= fun _ =>
      Block.program.continuation x b.next) s w = (.of r, s', w')) :
    Recounts (env.account places) past b r ((.enter, b) :: (T ++ env.stopsOf
      (Program.perform (.stop .leave b) >>= fun _ =>
        Block.program.continuation x b.next) s w)) := by
  obtain ⟨t, v, onward, ran, told⟩ := h.after_stop within ran
  rw [told]
  cases next : b.next with
  | none =>
    rw [next] at ran
    obtain rfl : Except.ok x = r := Ending.of_injective (congrArg Prod.fst ran)
    exact .last next complete inside own
  | some c =>
    rw [next] at ran onward
    have rest := after c next _ t v r s' w' onward ran
    rw [List.append_assoc, List.append_assoc] at rest
    cases r with
    | ok y => exact .next next complete inside own rest
    | error i =>
      obtain ⟨path, broken⟩ := rest
      exact ⟨path, .next next complete inside own broken⟩

/-- What is told of a chain, from what its own evaluation tells and from its successor. -/
theorem evaluation_recounts (sourced : env.Sourced places b.inputs)
    (after : ∀ c, b.next = some c → env.Carries places c.program c)
    (within : env.Within places (past ++ [(.enter, b)]) b.evaluation s w)
    (ran : env.run b.evaluation s w = (.of r, s', w')) :
    Recounts (env.account places) past b r ((.enter, b) :: env.stopsOf b.evaluation s w) := by
  have follows : env.Follows places b.inputs b.own b.plan := by
    cases b
    exact Stock.program_follows sourced _ _
  obtain ⟨x, t, v, first, second⟩ | ⟨i, rfl, failed⟩ := run_bind_of ran
  · have progress := follows _ s w (.ok x) t v within.first first
    rw [Block.evaluation, stopsOf_bind_ok first]
    cases progress with
    | finished complete inside =>
      exact h.left_recounts after complete inside ⟨s, w, t, v, within.first.here, first, rfl⟩
        (within.second first) second
  · rw [Block.evaluation, stopsOf_bind_interrupted failed]
    exact failed_recounts follows within.first failed

end

/-- Every chain tells a trace of itself, broken if it comes to no value. -/
theorem program_carries (places : Place ε) (b : Block Stock) :
    env.Carries places b.program b := by
  induction b using Block.induct with
  | step header inputs next inner after =>
    intro past s w r s' w' within ran
    -- The chains in the slots and the successor tell what they should; this block adds its own.
    obtain ⟨t, v, within, ran, told⟩ := h.after_enter within ran
    have sourced : env.Sourced places (Block.inputs (.mk header inputs next)) := inner
    rw [told]
    exact h.evaluation_recounts sourced after within ran

end Undisturbed

end Environment

/-- What the blocks of a script came to where its run came by them. -/
def Script.account (script : Script Stock) (env : Environment Stock ε) (w : World ε) : Account :=
  env.account (env.Passes script.root.program (script.initial env w) (script.limited w))

/-- What a chain that comes to an error or crashes tells is interrupted there. -/
theorem Environment.Undisturbed.root_interrupted {env : Environment Stock ε} {d : Debugger Stock ε}
    (undisturbed : env.Undisturbed d) {script : Script Stock} {w v : World ε} {i : Interruption}
    {s : RunState}
    (ran : env.run script.root.program (script.initial env w) (script.limited w) =
      (.of (.error i), s, v)) :
    ∃ path, Interrupted (script.account env w) script.root i path
      (stops (env.news script.root.program (script.initial env w) (script.limited w))) := by
  obtain ⟨path, broken⟩ := undisturbed.program_carries
    (env.Passes script.root.program (script.initial env w) (script.limited w)) script.root []
    (script.initial env w) (script.limited w) (.error i) s v (fun _ _ _ passes => passes) ran
  exact ⟨path, broken.interrupted⟩

/-- A run that is left undisturbed ends if every answer comes and nothing crashes. All it tells
before the last interception is a trace of the root chain, or a broken one up to the block that
raised the error. The last interception is for the first block, there is no other of its kind, and
after it comes once that the run is over. Of a run that crashes, which takes a block that asks too
much, a trace broken at the block that crashed is all that is told. -/
theorem interceptions_trace_the_tree {ε : Type} (script : Script Stock) {env : Environment Stock ε}
    {d : Debugger Stock ε} (undisturbed : env.Undisturbed d)
    (untimed : script.settings.timeout = none) (w : World ε) :
    (env.Responsive → ¬script.crashes env w → ∃ run w', script.run env w = some (run, w')) ∧
    (∀ run w', script.run env w = some (run, w') →
      ∃ news scopes,
        script.run env.recorded (w.beside []) = some (run, w'.beside
          (news ++ [.stopped .finish script.root scopes, .finished run.error])) ∧
        (∀ n ∈ news, n.During) ∧
        match run.result with
        | .ok v => Trace (script.account env w) [] script.root v (stops news)
        | .error e =>
          ∃ path, Interrupted (script.account env w) script.root (.error e) path (stops news)) ∧
    (script.crashes env w →
      script.run env w = none ∧ (∃ b, script.root.Contains b ∧ b.Overtaxes env.site) ∧
      ∃ (s : RunState) (w' : World ε) (news : List (Notice Stock)) (path : List (Block Stock)),
        env.recorded.run script.root.program (script.initial env w) ((script.limited w).beside []) =
          (.crash, s, w'.beside news) ∧
        (∀ n ∈ news, n.During) ∧
        Interrupted (script.account env w) script.root .crash path (stops news)) := by
  have orderly := script.root.program_orderly
  refine ⟨fun responsive intact => Script.run_returns responsive orderly intact, ?_, ?_⟩
  · intro run w' ran
    obtain ⟨evaluated, s, v, root, recorded⟩ := script.run_recorded env undisturbed.watched ran []
    refine ⟨_, s.scopes, recorded, orderly.during, ?_⟩
    rw [Script.run_result undisturbed.watched undisturbed.consents undisturbed.quiet ran root]
    obtain ⟨u, evaluates⟩ := Script.evaluateRoot_result untimed root
    cases evaluated with
    | ok x =>
      exact undisturbed.program_carries
        (env.Passes script.root.program (script.initial env w) (script.limited w)) script.root []
        (script.initial env w) (script.limited w) (.ok x) s u (fun _ _ _ passes => passes) evaluates
    | error e => exact undisturbed.root_interrupted (i := .error e) evaluates
  · intro crashes
    obtain ⟨s, v, crashed⟩ := Script.crashes_iff.mp crashes
    obtain ⟨path, interrupted⟩ := undisturbed.root_interrupted (i := .crash) crashed
    refine ⟨Script.run_of_crashes crashes, Script.crashes_overtaxed crashes, s, v, _, path, ?_,
      orderly.during, interrupted⟩
    rw [env.run_recorded, crashed]
    rfl

/-- A variable is set to a disjunction whose first operand settles it, and then the script fails. -/
def settledThenFailed : Block Stock :=
  .mk ⟨"variables_set", some "set", .setVariable, [("VAR", .string "x")], []⟩
    [("VALUE", .mk ⟨"logic_operation", some "or", .logic, [("OP", .string "OR")], []⟩
      [("A", .mk ⟨"logic_boolean", some "a", .boolean, [("BOOL", .bool true)], []⟩ [] none),
        ("B", .mk ⟨"logic_null", some "b", .null, [], []⟩ [] none)] none)]
    (some (.mk ⟨"script_fail", some "fail", .failure, [], []⟩
      [("MESSAGE", .mk ⟨"text", some "text", .text, [("TEXT", .string "no")], []⟩ [] none)] none))

/-- A debugger that lets everything pass. -/
def consenting : Debugger Stock Unit where
  intercept _ _ _ e := (.now (.ok ()), e)
  finished _ e := e

/-- A site without services, watched by that debugger. -/
def attended : Environment Stock Unit where
  site := .bare []
  debugger := some consenting
  aborted _ := false
  abort e := e
  react e := e

theorem attended_undisturbed : attended.Undisturbed consenting :=
  ⟨rfl, fun _ _ _ _ => rfl, fun _ => rfl⟩

theorem attended_responsive : attended.Responsive where
  call _ _ _ _ _ _ := ⟨_, _, rfl⟩
  spawn _ _ _ _ _ _ := ⟨_, _, rfl⟩
  intercept := by
    rintro d ⟨⟩ reason block scopes e raced v -
    exact ⟨_, _, rfl⟩

/-- What that script tells: the second operand is not touched, and the failing block is entered
and not left. -/
def settledThenFailedTold : List (StopReason × Option String) :=
  [(.enter, some "set"), (.enter, some "or"), (.enter, some "a"), (.leave, some "a"),
    (.leave, some "or"), (.leave, some "set"), (.enter, some "fail"), (.enter, some "text"),
    (.leave, some "text")]

theorem settled_then_failed :
    let script : Script Stock := ⟨settledThenFailed, {}⟩
    let w : World Unit := { peers := (), origin := ⟨0, 0⟩ }
    ∃ run w' news scopes path, script.run attended w = some (run, w') ∧
      run.result = .error (.failed "no") ∧
      script.run attended.recorded (w.beside []) = some (run, w'.beside
        (news ++ [.stopped .finish settledThenFailed scopes, .finished run.error])) ∧
      Interrupted (script.account attended w) settledThenFailed (.error (.failed "no")) path
        (stops news) ∧
      (stops news).map (fun x => (x.1, x.2.id)) = settledThenFailedTold := by
  intro script w
  have intact : script.crashes attended w = false := by decide +kernel
  have failed : (script.run attended w).map (fun x => x.1.error) = some (some (.failed "no")) := by
    decide +kernel
  have listed : (script.run attended.recorded (w.beside [])).map
      (fun x => (stops x.2.peers.2).map fun y => (y.1, y.2.id)) =
      some (settledThenFailedTold ++ [(.finish, some "set")]) := by
    decide +kernel
  obtain ⟨ends, tells, -⟩ := interceptions_trace_the_tree script attended_undisturbed rfl w
  obtain ⟨run, w', ended⟩ := ends attended_responsive (by simp [intact])
  obtain ⟨news, scopes, recorded, -, told⟩ := tells run w' ended
  rw [ended, Option.map_some, Option.some.injEq] at failed
  have result := Run.result_of_error failed
  rw [result] at told
  obtain ⟨path, interrupted⟩ := told
  rw [recorded, Option.map_some, Option.some.injEq] at listed
  change (stops (news ++ _)).map _ = _ at listed
  rw [stops_append, List.map_append] at listed
  exact ⟨run, w', news, scopes, path, ended, result, recorded, interrupted,
    List.append_cancel_right listed⟩

/-- Though every answer comes, a call with too many arguments crashes an undisturbed run. It tells
that the block is entered, and neither a last interception nor an end. -/
theorem crash_ends_the_trace :
    let script : Script Stock := ⟨.excessive, {}⟩
    let w : World Unit := { peers := (), origin := ⟨0, 0⟩ }
    attended.Undisturbed consenting ∧ attended.Responsive ∧ script.settings.timeout = none ∧
    script.run attended w = none ∧
    ∃ s, attended.recorded.run script.root.program (script.initial attended w)
        ((script.limited w).beside []) =
      (.crash, s, w.beside [.stopped .enter .excessive s.scopes]) := by
  intro script w
  have crashes : script.crashes attended w := rfl
  exact ⟨attended_undisturbed, attended_responsive, rfl, Script.run_of_crashes crashes, _, rfl⟩

end BlockScript
