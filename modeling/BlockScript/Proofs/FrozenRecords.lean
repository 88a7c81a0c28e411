import BlockScript.Proofs.RunRecords
/-!
A finished record is frozen.

A run does three things to its record: it attaches modifiers, it says whether the children have
come to an end, and it finishes the record. Whatever the order, a record is open and active or
finished with a terminal outcome, and nothing that comes after the finish changes it.
-/

namespace BlockScript

open Log
open Time (Timestamp)

namespace LogRecord

/-- What can be done to the record of a run. -/
inductive Change where
  | attach (modifier : Modifier)
  | setGroupComplete (complete : Bool)
  | finish (outcome : Outcome) (details : String) (time : Timestamp)

namespace Change

/-- What comes of a change, and the record after it. -/
def make : Change → LogRecord → Except ModifierError Unit × LogRecord
  | .attach modifier, r => Log.attach modifier r
  | .setGroupComplete complete, r => (.ok (), r.setGroupComplete complete)
  | .finish outcome details time, r =>
    match r.finish outcome details time with
    | .ok r => (.ok (), r)
    | .error e => (.error e, r)

/-- The record after changes made one after the other, whether they are refused or not. -/
def makeAll (changes : List Change) (r : LogRecord) : LogRecord :=
  changes.foldl (fun r change => (change.make r).2) r

/-- Changes that attach no modifiers but those of standard blocks. -/
def Stocked : Change → Prop
  | .attach modifier => modifier.Stocked
  | _ => True

end Change

/-- The outcome says whether a record is finished, and an open record has nothing to say yet. -/
structure Coherent (r : LogRecord) : Prop where
  finished_iff : r.isFinished ↔ r.result.isTerminal
  active : r.finished = none → r.result = .active ∧ r.details = ""

theorem start_coherent (name id : Option String) (user : String) (time : Timestamp) :
    (start name id user time).Coherent where
  finished_iff := by simp [start, isFinished, Outcome.isTerminal]
  active _ := ⟨rfl, rfl⟩

/-- A stock modifier has no say in how a run ended. -/
theorem attach_verdict {m : Modifier} (stocked : m.Stocked) (r : LogRecord) :
    (attach m r).2.result = r.result ∧ (attach m r).2.details = r.details := by
  obtain ⟨_, _, _, eq⟩ := attach_decorates stocked r
  rw [eq]
  exact ⟨rfl, rfl⟩

theorem finish_of_open {r : LogRecord} (unfinished : r.isFinished = false) {outcome : Outcome}
    (terminal : outcome.isTerminal) (details : String) (time : Timestamp) :
    (Change.finish outcome details time).make r =
      (.ok (), { r with result := outcome, details, finished := some time }) := by
  simp [Change.make, finish, unfinished, terminal]

/-- No record is finished as if it were still active. -/
theorem finish_active (r : LogRecord) (details : String) (time : Timestamp) :
    (Change.finish .active details time).make r = (.error .alreadyFinished, r) := by
  simp [Change.make, finish, Outcome.isTerminal]

section
variable {r : LogRecord} (finished : r.isFinished)
include finished

theorem attach_of_finished (m : Modifier) :
    (Change.attach m).make r = (.error .alreadyFinished, r) := by
  simp [Change.make, attach, finished]

theorem finish_of_finished (outcome : Outcome) (details : String) (time : Timestamp) :
    (Change.finish outcome details time).make r = (.error .alreadyFinished, r) := by
  simp [Change.make, finish, finished]

theorem make_of_finished (change : Change) : (change.make r).2 = r := by
  cases change with
  | attach m => rw [attach_of_finished finished m]
  | setGroupComplete complete => simp [Change.make, setGroupComplete, finished]
  | finish outcome details time => rw [finish_of_finished finished outcome details time]

theorem makeAll_of_finished (changes : List Change) : Change.makeAll changes r = r := by
  induction changes with
  | nil => rfl
  | cons change changes ih =>
    rw [Change.makeAll, List.foldl_cons, make_of_finished finished change]
    exact ih

end

/-- Every change keeps a record coherent; the one that finishes it sets everything at once. -/
theorem make_coherent {r : LogRecord} (h : r.Coherent) {change : Change}
    (stocked : change.Stocked) : (change.make r).2.Coherent := by
  by_cases finished : r.isFinished
  · rw [make_of_finished finished change]
    exact h
  · have unfinished : r.isFinished = false := by simpa using finished
    cases change with
    | attach m =>
      have still : (attach m r).2.finished = r.finished := attach_finished stocked r
      obtain ⟨result, details⟩ := attach_verdict stocked r
      constructor
      · simp only [Change.make, isFinished, still, result]
        exact h.finished_iff
      · simp only [Change.make, still, result, details]
        exact h.active
    | setGroupComplete complete =>
      simp only [Change.make, setGroupComplete, unfinished]
      exact ⟨h.finished_iff, h.active⟩
    | finish outcome details time =>
      by_cases terminal : outcome.isTerminal
      · rw [finish_of_open unfinished terminal]
        refine ⟨by simp [isFinished, terminal], ?_⟩
        intro unset
        cases unset
      · have active : outcome = .active := by
          cases outcome <;> simp_all [Outcome.isTerminal]
        rw [active, finish_active]
        exact h

theorem makeAll_coherent {changes : List Change} (stocked : ∀ change ∈ changes, change.Stocked)
    {r : LogRecord} (h : r.Coherent) : (Change.makeAll changes r).Coherent := by
  induction changes generalizing r with
  | nil => exact h
  | cons change changes ih =>
    obtain ⟨first, rest⟩ := List.forall_mem_cons.mp stocked
    exact ih rest (make_coherent h first)

/-- A record that was opened and then changed in any order. It is finished exactly if its outcome is
terminal, and while it is open it is active and without details. It takes a terminal outcome while
it is open and never takes the active one. Once it is finished, it refuses every outcome and every
modifier, and no further changes leave a mark on it. -/
theorem finished_record_is_frozen (name id : Option String) (user : String) (time : Timestamp)
    {changes : List Change} (stocked : ∀ change ∈ changes, change.Stocked) :
    let r := Change.makeAll changes (start name id user time)
    (r.isFinished ↔ r.result.isTerminal) ∧
    (r.finished = none → r.result = .active ∧ r.details = "") ∧
    (∀ details time,
      (Change.finish .active details time).make r = (.error .alreadyFinished, r)) ∧
    (r.isFinished = false → ∀ outcome details time, outcome.isTerminal →
      (Change.finish outcome details time).make r =
        (.ok (), { r with result := outcome, details, finished := some time })) ∧
    (r.isFinished →
      (∀ outcome details time,
        (Change.finish outcome details time).make r = (.error .alreadyFinished, r)) ∧
      (∀ m, (Change.attach m).make r = (.error .alreadyFinished, r)) ∧
      ∀ more, Change.makeAll (changes ++ more) (start name id user time) = r) := by
  intro r
  have coherent : r.Coherent := makeAll_coherent stocked (start_coherent name id user time)
  refine ⟨coherent.finished_iff, coherent.active, finish_active r, ?_, ?_⟩
  · intro unfinished outcome details time terminal
    exact finish_of_open unfinished terminal details time
  · intro finished
    refine ⟨finish_of_finished finished, attach_of_finished finished, ?_⟩
    intro more
    rw [Change.makeAll, List.foldl_append]
    exact makeAll_of_finished finished more

/-- A record that is tagged and fails keeps its outcome, its tag and its one modifier, whatever is
tried on it afterwards. -/
theorem failed_once_and_for_all :
    let before : List Change :=
      [.attach (.tag "k" .null), .finish .active "early" ⟨1, 0⟩, .finish .failure "broke" ⟨2, 0⟩]
    let after : List Change :=
      [.finish .success "" ⟨3, 0⟩, .setGroupComplete true, .attach (.childScript "c")]
    let opened := start none none "u" ⟨0, 0⟩
    (∀ change ∈ before, change.Stocked) ∧
    (Change.makeAll before opened).isFinished ∧
    Change.makeAll (before ++ after) opened =
      { opened with
        result := .failure
        details := "broke"
        finished := some ⟨2, 0⟩
        annotations := [("k", .null)]
        modifiers := [⟨"tag", .object [("key", .string "k"), ("value", .null)]⟩] } := by
  intro before after opened
  have stocked : ∀ change ∈ before, change.Stocked := by
    simp only [before, List.forall_mem_cons]
    exact ⟨.inl ⟨"k", .null, rfl⟩, trivial, trivial, nofun⟩
  have finished : (Change.makeAll before opened).isFinished := rfl
  obtain ⟨-, -, -, -, frozen⟩ := finished_record_is_frozen none none "u" ⟨0, 0⟩ stocked
  exact ⟨stocked, finished, (frozen finished).2.2 after⟩

end LogRecord

end BlockScript
