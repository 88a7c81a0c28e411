import BlockScript.Proofs.CutShort
/-!
A stepper and its controller.

The controller sends commands and reads events at its own pace. Whatever that pace, a stop finds
the same command waiting for it and publishes the same event, so of a session it is enough to know
whether the stepper runs free, which commands are yet to be obeyed, sent or not, and which events
were published, read or not: its `Standing`.
-/

namespace BlockScript

/-- A stepper, the commands that its controller has yet to send, and the events that it has read. -/
structure Session where
  stepper : Stepper
  unsent : List StepCommand := []
  read : List StepEvent := []

/-- Where a session stands. -/
structure Standing where
  free : Bool
  /-- Commands not yet obeyed. -/
  pending : List StepCommand
  published : List StepEvent

namespace Standing

/-- After a stop. A stepper that runs free takes no notice of it; otherwise it is published and
takes the next command. -/
def heed (v : Standing) (event : StopEvent) : Standing :=
  if v.free then v
  else
    { free := v.pending.head? == some .release
      pending := v.pending.tail
      published := v.published ++ [.stopped event] }

/-- What a stop comes to: without a command it waits for ever. -/
def answer (v : Standing) : Ending Unit :=
  if v.free then .result (.ok ())
  else
    match v.pending with
    | .step :: _ | .release :: _ => .result (.ok ())
    | .abort :: _ => .result (.error .aborted)
    | [] => .stuck

end Standing

namespace Session

/-- Where a session stands, as long as the controller is there. -/
structure Shows (x : Session) (v : Standing) : Prop where
  free : x.stepper.free = v.free
  pending : x.stepper.commands ++ x.unsent = v.pending
  published : x.read ++ x.stepper.events = v.published
  present : x.stepper.abandoned = false

/-- A controller that stays and keeps to its business: it sends its commands in order and reads
events in order, and it does not leave the stepper without a command while it has one to send. -/
structure Serves (control : Session → Session) : Prop where
  shows : ∀ x v, x.Shows v → (control x).Shows v
  attentive : ∀ x v, x.Shows v → v.pending ≠ [] → (control x).stepper.commands ≠ []

def debugger : Debugger Stock Session :=
  Stepper.debuggerIn Session.stepper fun x s => { x with stepper := s }

variable {control : Session → Session} {x : Session} {v : Standing}

section
variable {reason : StopReason} (going : reason ≠ .finish) (block : Block Stock) (scopes : Scopes)
include going

/-- A stepper that runs free does not stop. -/
theorem intercept_free (free : x.stepper.free = true) :
    debugger.intercept reason block scopes x = (.now (.ok ()), x) := by
  have going' : (StopEvent.of reason block scopes).reason ≠ .finish := going
  simp [debugger, Stepper.debuggerIn, Stepper.stop, going', free]

variable (bound : x.stepper.free = false)
include bound

theorem intercept_obeyed {r : Except ScriptError Unit} {s : Stepper}
    (obeyed : (x.stepper.publish (.stopped (.of reason block scopes))).obey = some (r, s)) :
    debugger.intercept reason block scopes x = (.now r, { x with stepper := s }) := by
  have going' : (StopEvent.of reason block scopes).reason ≠ .finish := going
  simp [debugger, Stepper.debuggerIn, Stepper.stop, going', bound, obeyed]

/-- Without a command to obey a stop waits for one. -/
theorem intercept_waiting
    (waits : (x.stepper.publish (.stopped (.of reason block scopes))).obey = none) :
    debugger.intercept reason block scopes x =
      (.once fun y => y.stepper.obey.map fun q => (q.1, { y with stepper := q.2 }),
        { x with stepper := x.stepper.publish (.stopped (.of reason block scopes)) }) := by
  have going' : (StopEvent.of reason block scopes).reason ≠ .finish := going
  simp [debugger, Stepper.debuggerIn, Stepper.stop, going', bound, waits]

end

theorem Shows.publish (h : x.Shows v) (e : StepEvent) :
    Shows { x with stepper := x.stepper.publish e } { v with published := v.published ++ [e] } := by
  have told : x.stepper.publish e = { x.stepper with events := x.stepper.events ++ [e] } := by
    simp [Stepper.publish, h.present]
  rw [told]
  exact ⟨h.free, h.pending, by simp [← h.published], h.present⟩

/-- A stepper that was sent a command obeys it. -/
theorem Shows.obey (h : x.Shows v) (bound : v.free = false) (sent : x.stepper.commands ≠ []) :
    ∃ r s, x.stepper.obey = some (r, s) ∧ v.answer = .result r ∧
      Shows { x with stepper := s }
        { free := v.pending.head? == some .release, pending := v.pending.tail,
          published := v.published } := by
  obtain ⟨free, pending, published, present⟩ := h
  cases queue : x.stepper.commands with
  | nil => exact absurd queue sent
  | cons c rest =>
    rw [queue] at pending
    have first : v.pending.head? = some c := by rw [← pending]; rfl
    have others : v.pending.tail = rest ++ x.unsent := by rw [← pending]; rfl
    cases c with
    | step =>
      refine ⟨.ok (), { x.stepper with commands := rest }, by simp [Stepper.obey, queue],
        by simp [Standing.answer, bound, ← pending], ?_⟩
      exact ⟨by simp [first, free, bound], others.symm, published, present⟩
    | release =>
      refine ⟨.ok (), { x.stepper with commands := rest, free := true },
        by simp [Stepper.obey, queue], by simp [Standing.answer, bound, ← pending], ?_⟩
      exact ⟨by simp [first], others.symm, published, present⟩
    | abort =>
      refine ⟨.error .aborted, { x.stepper with commands := rest }, by simp [Stepper.obey, queue],
        by simp [Standing.answer, bound, ← pending], ?_⟩
      exact ⟨by simp [first, free, bound], others.symm, published, present⟩

/-- What a stop comes to, by the standing of the session: an answer at once, or one for which the
controller has to move first. -/
theorem Shows.stop (serves : Serves control) (h : x.Shows v) {reason : StopReason}
    (going : reason ≠ .finish) (block : Block Stock) (scopes : Scopes) :
    (∃ r z, debugger.intercept reason block scopes x = (.now r, z) ∧ v.answer = .result r ∧
      z.Shows (v.heed (.of reason block scopes))) ∨
    ∃ ready y, debugger.intercept reason block scopes x = (.once ready, y) ∧
      ((∃ r z, ready (control y) = some (r, z) ∧ v.answer = .result r ∧
        z.Shows (v.heed (.of reason block scopes))) ∨
      (ready (control y) = none ∧ v.answer = .stuck ∧
        (control y).Shows (v.heed (.of reason block scopes)))) := by
  by_cases free : v.free = true
  · refine .inl ⟨.ok (), x, ?_, by simp [Standing.answer, free], by simpa [Standing.heed, free]⟩
    exact intercept_free going block scopes (h.free.trans free)
  · have bound : v.free = false := by simpa using free
    have unfree : x.stepper.free = false := h.free.trans bound
    have told := h.publish (.stopped (.of reason block scopes))
    have heed : v.heed (.of reason block scopes) =
        { free := v.pending.head? == some .release, pending := v.pending.tail,
          published := v.published ++ [.stopped (.of reason block scopes)] } := by
      simp [Standing.heed, bound]
    have same : Standing.answer
        { v with published := v.published ++ [.stopped (.of reason block scopes)] } = v.answer :=
      rfl
    rw [heed]
    by_cases sent : (x.stepper.publish (.stopped (.of reason block scopes))).commands = []
    · -- Nothing was sent in time: the stop waits, and the controller moves.
      have present : (x.stepper.publish (.stopped (.of reason block scopes))).abandoned = false :=
        told.present
      have waits : (x.stepper.publish (.stopped (.of reason block scopes))).obey = none := by
        simp [Stepper.obey, sent, present]
      refine .inr ⟨_, _, intercept_waiting going block scopes unfree waits, ?_⟩
      have moved := serves.shows _ _ told
      by_cases left : v.pending = []
      · have bare := List.append_eq_nil_iff.mp (moved.pending.trans left)
        refine .inr ⟨by simp [Stepper.obey, bare.1, moved.present],
          by simp [Standing.answer, bound, left], ?_⟩
        simpa [left, bound] using moved
      · obtain ⟨r, s, obeyed, answer, shows⟩ :=
          moved.obey bound (serves.attentive _ _ told left)
        exact .inl ⟨r, _, by simp [obeyed], same ▸ answer, shows⟩
    · obtain ⟨r, s, obeyed, answer, shows⟩ := told.obey bound sent
      exact .inl ⟨r, { x with stepper := s }, intercept_obeyed going block scopes unfree obeyed,
        same ▸ answer, shows⟩

/-- A session that has an answer to give lets a stop pass. -/
theorem Shows.grants (serves : Serves control) (h : x.Shows v)
    (passes : v.answer = .result (.ok ())) {reason : StopReason} (going : reason ≠ .finish)
    (block : Block Stock) (scopes : Scopes) :
    ∃ z, (debugger.intercept reason block scopes x).1.Grants control
        (debugger.intercept reason block scopes x).2 z ∧
      z.Shows (v.heed (.of reason block scopes)) := by
  obtain ⟨r, z, stopped, answer, shows⟩ | ⟨ready, y, stopped, waited⟩ :=
    h.stop serves going block scopes
  · rw [passes] at answer
    cases answer
    exact ⟨z, by simp [stopped, Answer.Grants], shows⟩
  · obtain ⟨r, z, came, answer, shows⟩ | ⟨-, answer, -⟩ := waited
    · rw [passes] at answer
      cases answer
      exact ⟨z, by simp [stopped, Answer.Grants, came], shows⟩
    · rw [passes] at answer
      cases answer

theorem Shows.refuses (serves : Serves control) (h : x.Shows v) {e : ScriptError}
    (fails : v.answer = .result (.error e)) {reason : StopReason} (going : reason ≠ .finish)
    (block : Block Stock) (scopes : Scopes) :
    (debugger.intercept reason block scopes x).1.Refuses control
      (debugger.intercept reason block scopes x).2 e := by
  obtain ⟨r, z, stopped, answer, shows⟩ | ⟨ready, y, stopped, waited⟩ :=
    h.stop serves going block scopes
  · rw [fails] at answer
    cases answer
    simp [stopped, Answer.Refuses]
  · obtain ⟨r, z, came, answer, shows⟩ | ⟨-, answer, -⟩ := waited
    · rw [fails] at answer
      cases answer
      exact stopped ▸ ⟨z, came⟩
    · rw [fails] at answer
      cases answer

end Session

/-- Commands are some steps, and then others. -/
theorem StepCommand.exists_steps (sent : List StepCommand) :
    ∃ rest, sent = List.replicate (sent.findIdx (· ≠ .step)) .step ++ rest ∧
      rest.head? = sent[sent.findIdx (· ≠ .step)]? ∧ rest.head? ≠ some .step := by
  induction sent with
  | nil => exact ⟨[], rfl, rfl, nofun⟩
  | cons c sent ih =>
    by_cases step : c = .step
    · obtain ⟨rest, split, head, other⟩ := ih
      subst step
      refine ⟨rest, ?_, ?_, other⟩
      · simp only [List.findIdx_cons, ne_eq, not_true_eq_false, decide_false, cond_false,
          List.replicate_succ, List.cons_append, List.cons.injEq, true_and]
        exact split
      · simpa [List.findIdx_cons] using head
    · exact ⟨c :: sent, by simp [List.findIdx_cons, step], by simp [List.findIdx_cons, step],
        by simp [step]⟩

namespace Standing

variable {v : Standing}

theorem foldl_heed_free (free : v.free = true) (seen : List StopEvent) : seen.foldl heed v = v := by
  induction seen with
  | nil => rfl
  | cons event seen ih =>
    have still : v.heed event = v := by simp [heed, free]
    rw [List.foldl_cons, still, ih]

/-- After some stops, when the commands are some steps and then others: each stop has taken one
command and was published, up to the one that took the first command that is no step. -/
theorem foldl_heed {k : Nat} {rest : List StepCommand} (bound : v.free = false)
    (sent : v.pending = List.replicate k .step ++ rest) {seen : List StopEvent}
    (fits : seen.length ≤ k + 1 ∨ rest.head? = some .release) :
    seen.foldl heed v =
      { free := decide (k < seen.length) && rest.head? == some .release
        pending := v.pending.drop (min seen.length (k + 1))
        published := v.published ++ (seen.take (k + 1)).map .stopped } := by
  induction k generalizing v seen with
  | zero =>
    cases seen with
    | nil =>
      obtain ⟨free, pending, published⟩ := v
      simpa using bound
    | cons event seen =>
      rw [List.foldl_cons]
      obtain short | released := fits
      · obtain rfl : seen = [] := by simpa using short
        simp [heed, bound, sent]
      · have free : (v.heed event).free = true := by simp [heed, bound, sent, released]
        rw [foldl_heed_free free]
        simp [heed, bound, sent, released]
  | succ k ih =>
    cases seen with
    | nil =>
      obtain ⟨free, pending, published⟩ := v
      simpa using bound
    | cons event seen =>
      have heeded : v.heed event =
          { free := false, pending := List.replicate k .step ++ rest,
            published := v.published ++ [.stopped event] } := by
        simp [heed, bound, sent, List.replicate_succ]
      have fits' : seen.length ≤ k + 1 ∨ rest.head? = some .release := by simpa using fits
      rw [List.foldl_cons, heeded, ih rfl rfl fits']
      simp [sent, List.replicate_succ]

/-- After the first of some stops. -/
theorem exists_foldl_heed (v : Standing) (bound : v.free = false) {stops seen : List StopEvent}
    (first : seen <+: stops)
    (fits : seen.length ≤ v.pending.findIdx (· ≠ .step) + 1 ∨
      v.pending[v.pending.findIdx (· ≠ .step)]? = some .release) :
    let n := min seen.length (v.pending.findIdx (· ≠ .step) + 1)
    ∃ free, seen.foldl heed v =
      ⟨free, v.pending.drop n, v.published ++ (stops.take n).map .stopped⟩ := by
  intro n
  obtain ⟨rest, sent, head, -⟩ := StepCommand.exists_steps v.pending
  have taken : seen.take (v.pending.findIdx (· ≠ .step) + 1) = stops.take n := by
    rw [List.prefix_iff_eq_take.mp first, List.take_take, Nat.min_comm]
  exact ⟨_, by rw [foldl_heed bound sent (head ▸ fits), taken]⟩

/-- The next so many stops pass: the stepper runs free, or there is a step for each of them, or
steps and then a release. -/
def Passes (n : Nat) (v : Standing) : Prop :=
  v.free = true ∨ ∃ k rest, v.pending = List.replicate k .step ++ rest ∧
    (n ≤ k ∨ rest.head? = some .release)

/-- The next so many stops pass, and the one after them is to be failed. -/
def Stumbles (n : Nat) (v : Standing) : Prop :=
  v.free = false ∧ ∃ rest, v.pending = List.replicate n .step ++ .abort :: rest

theorem Passes.fewer {n : Nat} (h : v.Passes (n + 1)) : v.Passes n := by
  obtain free | ⟨k, rest, sent, enough | released⟩ := h
  · exact .inl free
  · exact .inr ⟨k, rest, sent, .inl (by omega)⟩
  · exact .inr ⟨k, rest, sent, .inr released⟩

theorem Passes.heed {n : Nat} (h : v.Passes (n + 1)) (event : StopEvent) :
    v.answer = .result (.ok ()) ∧ (v.heed event).Passes n := by
  by_cases free : v.free = true
  · exact ⟨by simp [answer, free], .inl (by simp [Standing.heed, free])⟩
  · have bound : v.free = false := by simpa using free
    obtain ⟨k, rest, sent, enough⟩ := h.resolve_left free
    cases k with
    | zero =>
      have released : rest.head? = some .release := by simpa using enough
      obtain ⟨others, rfl⟩ := List.head?_eq_some_iff.mp released
      exact ⟨by simp [answer, bound, sent], .inl (by simp [Standing.heed, bound, sent])⟩
    | succ k =>
      refine ⟨by simp [answer, bound, sent, List.replicate_succ], .inr ⟨k, rest, ?_, ?_⟩⟩
      · simp [Standing.heed, bound, sent, List.replicate_succ]
      · simpa using enough

theorem Stumbles.heed {n : Nat} (h : v.Stumbles (n + 1)) (event : StopEvent) :
    v.answer = .result (.ok ()) ∧ (v.heed event).Stumbles n := by
  obtain ⟨bound, rest, sent⟩ := h
  refine ⟨by simp [answer, bound, sent, List.replicate_succ], ?_, rest, ?_⟩
  · simp [Standing.heed, bound, sent, List.replicate_succ]
  · simp [Standing.heed, bound, sent, List.replicate_succ]

theorem Stumbles.fails (h : v.Stumbles 0) : v.answer = .result (.error .aborted) := by
  obtain ⟨bound, rest, sent⟩ := h
  simp [answer, bound, sent]

end Standing

namespace Session

variable {control : Session → Session}

/-- A session that lets stops pass is a patient watcher. -/
theorem patience (serves : Serves control) :
    Patience (some debugger) control fun n x => ∃ v : Standing, x.Shows v ∧ v.Passes n where
  stop := by
    rintro d ⟨⟩ reason block scopes n x going ⟨v, shows, passes⟩
    obtain ⟨answer, passes⟩ := passes.heed (.of reason block scopes)
    obtain ⟨z, grants, shows⟩ := shows.grants serves answer going block scopes
    exact ⟨z, grants, _, shows, passes⟩
  finish := by
    rintro d ⟨⟩ block scopes n x -
    exact ⟨_, rfl, rfl⟩
  moves := by
    rintro n x ⟨v, shows, passes⟩
    exact ⟨v, serves.shows x v shows, passes⟩
  fewer := by
    rintro n x ⟨v, shows, passes⟩
    exact ⟨v, shows, passes.fewer⟩

theorem falters (serves : Serves control) :
    debugger.Falters control .aborted fun n x => ∃ v : Standing, x.Shows v ∧ v.Stumbles n where
  passes := by
    rintro reason block scopes n x going ⟨v, shows, stumbles⟩
    obtain ⟨answer, stumbles⟩ := stumbles.heed (.of reason block scopes)
    obtain ⟨z, grants, shows⟩ := shows.grants serves answer going block scopes
    exact ⟨z, grants, _, shows, stumbles⟩
  fails := by
    rintro reason block scopes x going ⟨v, shows, stumbles⟩
    exact shows.refuses serves stumbles.fails going block scopes
  moves := by
    rintro n x ⟨v, shows, stumbles⟩
    exact ⟨v, serves.shows x v shows, stumbles⟩

/-- A controller that reads every event, and sends a command when the stepper is without one. -/
def attend (x : Session) : Session :=
  let heard : Session :=
    { x with stepper := { x.stepper with events := [] }, read := x.read ++ x.stepper.events }
  match x.stepper.commands, x.unsent with
  | [], c :: rest =>
    { heard with stepper := { heard.stepper with commands := [c] }, unsent := rest }
  | _, _ => heard

theorem serves_attend : Serves attend where
  shows := by
    rintro x v ⟨free, pending, published, present⟩
    unfold attend
    split
    · next bare sent =>
      exact ⟨free, by simpa [bare, sent] using pending, by simpa using published, present⟩
    · exact ⟨free, pending, by simpa using published, present⟩
  attentive := by
    rintro x v ⟨free, pending, published, present⟩ left
    unfold attend
    split
    · simp
    · next others =>
      -- Without a command on either side there would be none pending.
      intro bare
      replace bare : x.stepper.commands = [] := bare
      cases sent : x.unsent with
      | nil => exact left (by simp [← pending, bare, sent])
      | cons c rest => exact others c rest bare sent

end Session

end BlockScript
