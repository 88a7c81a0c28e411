import BlockScript.Proofs.Replaying
import BlockScript.Rehearsal.Modifier
/-!
Attachments that fail.

An attachment fails because the record is finished, because the state cannot be written, or because
the modifier fails when it is applied. In the first two cases nothing has happened yet. In the third
whatever the modifier did stays done, though the record does not list it. So the list accounts for
the decoration as long as the modifiers that fail do so before they do anything.
-/

namespace BlockScript

open Log

namespace LogRecord

/-- Records that look alike, as far as modifiers decorate them. -/
def DecoratedAlike (r q : LogRecord) : Prop :=
  q.annotations = r.annotations ∧ q.children = r.children

end LogRecord

namespace Log

namespace Modifier

/-- What a record notes of a modifier. -/
def stored (m : Modifier) : Attachment :=
  ⟨m.kind, m.state⟩

/-- A modifier that has done nothing to an open record when it fails. -/
def Clean (m : Modifier) : Prop :=
  m.unwritable = true ∨
    ∀ r e q, r.isFinished = false → m.apply true r = (.error e, q) → q = r

/-- A modifier that decorates alike when it is attached and when it is replayed, on records that
look alike. It leaves the list of what was attached to others. -/
structure Faithful (m : Modifier) : Prop where
  result : ∀ r q, r.DecoratedAlike q → (m.apply false q).1 = (m.apply true r).1
  decoration : ∀ r q, r.DecoratedAlike q → (m.apply true r).2.DecoratedAlike (m.apply false q).2
  unlisted : ∀ r, (m.apply true r).2.modifiers = r.modifiers

end Modifier

/-- A catalog that makes of the stored state the modifier it was written from. -/
def Catalog.Rebuilds (c : Catalog) (m : Modifier) : Prop :=
  ∃ read, Entries.value? m.kind c = some read ∧ read m.state = some m

/-- The record after attaching modifiers one after the other, whether they fail or not. -/
def attachAll (ms : List Modifier) (r : LogRecord) : LogRecord :=
  ms.foldl (fun r m => (attach m r).2) r

/-- Those of the modifiers whose attachment succeeds. -/
def attached : List Modifier → LogRecord → List Modifier
  | [], _ => []
  | m :: ms, r =>
    match (attach m r).1 with
    | .ok () => m :: attached ms (attach m r).2
    | .error _ => attached ms (attach m r).2

section
variable {m : Modifier} {r : LogRecord}

/-- How an attachment to an open record can end. -/
theorem attach_cases (unfinished : r.isFinished = false) :
    (m.unwritable = true ∧ attach m r = (.error (.invalidState m.kind), r)) ∨
    m.unwritable = false ∧
      ((∃ e q, m.apply true r = (.error e, q) ∧ attach m r = (.error e, q)) ∨
      ∃ q, m.apply true r = (.ok (), q) ∧
        attach m r = (.ok (), { q with modifiers := q.modifiers ++ [m.stored] })) := by
  cases written : m.unwritable with
  | true => exact .inl ⟨rfl, by simp [attach, unfinished, written]⟩
  | false =>
    refine .inr ⟨rfl, ?_⟩
    rcases applied : m.apply true r with ⟨_ | _, q⟩
    · exact .inl ⟨_, q, rfl, by simp [attach, unfinished, written, applied]⟩
    · exact .inr ⟨q, rfl, by simp [attach, unfinished, written, applied, Modifier.stored]⟩

/-- A failed attachment undoes nothing. -/
theorem attach_of_error (unfinished : r.isFinished = false) {e : ModifierError}
    (failed : (attach m r).1 = .error e) :
    (attach m r).2 = if m.unwritable then r else (m.apply true r).2 := by
  obtain ⟨written, eq⟩ | ⟨written, ⟨f, q, applied, eq⟩ | ⟨q, applied, eq⟩⟩ :=
    attach_cases (m := m) unfinished
  · rw [eq, written]
    rfl
  · rw [eq, written, applied]
    rfl
  · rw [eq] at failed
    cases failed

/-- The modifiers that leave no trace when they cannot be attached are the clean ones. -/
theorem clean_iff :
    m.Clean ↔ ∀ r e, r.isFinished = false → (attach m r).1 = .error e → (attach m r).2 = r := by
  constructor
  · intro clean r e unfinished failed
    rw [attach_of_error unfinished failed]
    split
    · rfl
    · next written =>
      obtain ⟨absurd_written, -⟩ | ⟨-, ⟨f, q, applied, -⟩ | ⟨q, -, eq⟩⟩ :=
        attach_cases (m := m) unfinished
      · exact absurd absurd_written written
      · obtain unwritten | clean := clean
        · exact absurd unwritten written
        · rw [applied]
          exact clean r f q unfinished applied
      · rw [eq] at failed
        cases failed
  · intro traceless
    cases written : m.unwritable with
    | true => exact .inl written
    | false =>
      refine .inr fun r e q unfinished applied => ?_
      have eq : attach m r = (.error e, q) := by simp [attach, unfinished, written, applied]
      have same := traceless r e unfinished (by rw [eq])
      rwa [eq] at same

theorem Modifier.Clean.attach_of_error (clean : m.Clean) {e : ModifierError}
    (failed : (attach m r).1 = .error e) : (attach m r).2 = r := by
  cases unfinished : r.isFinished with
  | true => simp [attach, unfinished]
  | false => exact clean_iff.mp clean r e unfinished failed

/-- A modifier that is attached was applied, and is the last in the list. -/
theorem Modifier.Faithful.attach_of_ok (faithful : m.Faithful) (done : (attach m r).1 = .ok ()) :
    ∃ q, m.apply true r = (.ok (), q) ∧
      attach m r = (.ok (), { q with modifiers := r.modifiers ++ [m.stored] }) := by
  cases unfinished : r.isFinished with
  | true => simp [attach, unfinished] at done
  | false =>
    obtain ⟨-, eq⟩ | ⟨-, ⟨e, q, -, eq⟩ | ⟨q, applied, eq⟩⟩ := attach_cases (m := m) unfinished
    · rw [eq] at done
      cases done
    · rw [eq] at done
      cases done
    · have unlisted : (m.apply true r).2.modifiers = r.modifiers := faithful.unlisted r
      rw [applied] at unlisted
      rw [unlisted] at eq
      exact ⟨q, applied, eq⟩

end

/-- A record whose decoration is what replaying its list makes of a new record. -/
def Catalog.Accounts (c : Catalog) (r : LogRecord) : Prop :=
  ∀ name id user time, ∃ q,
    c.replay r.modifiers (LogRecord.start name id user time) = (.ok (), q) ∧ r.DecoratedAlike q

/-- The list accounts for the decoration after an attachment if it did before. -/
theorem Catalog.Accounts.attach {c : Catalog} {m : Modifier} {r : LogRecord} (clean : m.Clean)
    (faithful : m.Faithful) (rebuilt : c.Rebuilds m) (h : c.Accounts r) :
    c.Accounts (attach m r).2 := by
  cases ended : (Log.attach m r).1 with
  | error e =>
    rw [clean.attach_of_error ended]
    exact h
  | ok _ =>
    obtain ⟨p, applied, eq⟩ := faithful.attach_of_ok ended
    obtain ⟨read, found, read_eq⟩ := rebuilt
    intro name id user time
    obtain ⟨q, replayed, alike⟩ := h name id user time
    have result := faithful.result r q alike
    have decoration := faithful.decoration r q alike
    have again : c.replayOne m.stored q = (.ok (), (m.apply false q).2) := by
      rw [applied] at result
      simp only [Catalog.replayOne, Modifier.stored, found, read_eq]
      exact Prod.ext result rfl
    refine ⟨(m.apply false q).2, ?_, ?_⟩
    · rw [eq, Catalog.replay_append_of_ok replayed]
      simp only [Catalog.replay, again]
    · rw [eq]
      rw [applied] at decoration
      exact decoration

theorem Catalog.Accounts.attachAll {c : Catalog} {ms : List Modifier}
    (all : ∀ m ∈ ms, m.Clean ∧ m.Faithful ∧ c.Rebuilds m) {r : LogRecord} (h : c.Accounts r) :
    c.Accounts (attachAll ms r) := by
  induction ms generalizing r with
  | nil => exact h
  | cons m ms ih =>
    obtain ⟨⟨clean, faithful, rebuilt⟩, others⟩ := List.forall_mem_cons.mp all
    exact ih others (h.attach clean faithful rebuilt)

/-- What is listed is what was attached successfully, in order. -/
theorem modifiers_attachAll {ms : List Modifier} (all : ∀ m ∈ ms, m.Clean ∧ m.Faithful)
    (r : LogRecord) :
    (attachAll ms r).modifiers = r.modifiers ++ (attached ms r).map Modifier.stored := by
  induction ms generalizing r with
  | nil => simp [attachAll, attached]
  | cons m ms ih =>
    obtain ⟨⟨clean, faithful⟩, others⟩ := List.forall_mem_cons.mp all
    have rest := ih others (attach m r).2
    change (attachAll ms (attach m r).2).modifiers = _
    rw [rest, attached]
    cases ended : (attach m r).1 with
    | error e => rw [clean.attach_of_error ended]
    | ok _ =>
      obtain ⟨p, -, eq⟩ := faithful.attach_of_ok ended
      simp [eq]

namespace Modifier

theorem Stocked.clean {m : Modifier} (stocked : m.Stocked) : m.Clean := by
  refine .inr fun r e q _ applied => ?_
  obtain ⟨key, value, rfl⟩ | ⟨id, rfl⟩ := stocked <;> cases applied

theorem Stocked.faithful {m : Modifier} (stocked : m.Stocked) : m.Faithful := by
  obtain ⟨key, value, rfl⟩ | ⟨id, rfl⟩ := stocked
  · refine ⟨fun _ _ _ => rfl, ?_, fun _ => rfl⟩
    rintro r q ⟨annotations, children⟩
    exact ⟨congrArg (Entries.put key value) annotations, children⟩
  · have linked (r : LogRecord) : (r.linkChild id).annotations = r.annotations ∧
        (r.linkChild id).modifiers = r.modifiers ∧ (r.linkChild id).children =
          if id ∈ r.children then r.children else r.children ++ [id] := by
      unfold LogRecord.linkChild
      split <;> exact ⟨rfl, rfl, rfl⟩
    refine ⟨fun _ _ _ => rfl, ?_, fun r => (linked r).2.1⟩
    rintro r q ⟨annotations, children⟩
    refine ⟨?_, ?_⟩
    · exact (linked q).1.trans (annotations.trans (linked r).1.symm)
    · refine (linked q).2.2.trans (Eq.trans ?_ (linked r).2.2.symm)
      rw [children]

end Modifier

/-- An attachment that fails undoes nothing, so it leaves no trace just when the modifier has done
nothing. If the modifiers that are attached one after the other all fail in this way, if they fail,
then the list of a record has those that did not and accounts for the decoration: replayed on a new
record, it makes the same annotations and children. -/
theorem clean_failures_leave_no_trace (c : Catalog) (m : Modifier) (ms : List Modifier) :
    (∀ r e, r.isFinished = false → (attach m r).1 = .error e →
      (attach m r).2 = if m.unwritable then r else (m.apply true r).2) ∧
    (m.Clean ↔ ∀ r e, r.isFinished = false → (attach m r).1 = .error e → (attach m r).2 = r) ∧
    ((∀ m ∈ ms, m.Clean ∧ m.Faithful ∧ c.Rebuilds m) → ∀ name id user time,
      let opened := LogRecord.start name id user time
      let r := attachAll ms opened
      r.modifiers = (attached ms opened).map Modifier.stored ∧
      ∀ name id user time, ∃ q,
        c.replay r.modifiers (LogRecord.start name id user time) = (.ok (), q) ∧
        q.annotations = r.annotations ∧ q.children = r.children) := by
  refine ⟨fun r e unfinished failed => attach_of_error unfinished failed, clean_iff, ?_⟩
  intro all name id user time opened r
  have start : c.Accounts opened := fun name id user time => ⟨_, rfl, rfl, rfl⟩
  have listed := modifiers_attachAll (fun m mem => ⟨(all m mem).1, (all m mem).2.1⟩) opened
  exact ⟨listed, start.attachAll all⟩

/-- An annotation that is made once and for all. Made again, it fails and changes nothing. The list
has the annotation once, and the child that is linked afterwards. -/
theorem annotated_once :
    let once (key : String) : Modifier :=
      { kind := "once"
        state := .string key
        apply := fun _ r =>
          if (r.annotation? key).isSome then (.error (.invalidState "once"), r)
          else (.ok (), r.annotate key .null) }
    let c : Catalog := Catalog.standard.put "once" fun j => j.asString?.map once
    let ms : List Modifier := [once "k", once "k", .childScript "c"]
    let opened := LogRecord.start none none "u" ⟨0, 0⟩
    (∀ m ∈ ms, m.Clean ∧ m.Faithful ∧ c.Rebuilds m) ∧
    (attach (once "k") (attach (once "k") opened).2).1 = .error (.invalidState "once") ∧
    (attachAll ms opened).modifiers = [⟨"once", .string "k"⟩, (Modifier.childScript "c").stored] ∧
    ∀ name id user time, ∃ q,
      c.replay (attachAll ms opened).modifiers (LogRecord.start name id user time) = (.ok (), q) ∧
      q.annotations = [("k", .null)] ∧ q.children = ["c"] := by
  intro once c ms opened
  have rebuilt (key : String) : c.Rebuilds (once key) := ⟨_, rfl, rfl⟩
  have clean (key : String) : (once key).Clean := by
    refine .inr fun r e q _ applied => ?_
    simp only [once] at applied
    split at applied
    · cases applied
      rfl
    · cases applied
  have faithful (key : String) : (once key).Faithful := by
    have found {r q : LogRecord} (alike : r.DecoratedAlike q) :
        q.annotation? key = r.annotation? key := congrArg (Entries.value? key) alike.1
    refine ⟨fun r q alike => ?_, fun r q alike => ?_, fun r => ?_⟩
    · simp only [once, found alike]
      split <;> rfl
    · simp only [once, found alike]
      split
      · exact alike
      · exact ⟨congrArg (Entries.put key Json.null) alike.1, alike.2⟩
    · simp only [once]
      split <;> rfl
  have all : ∀ m ∈ ms, m.Clean ∧ m.Faithful ∧ c.Rebuilds m := by
    have linked : (Modifier.childScript "c").Stocked := .inr ⟨"c", rfl⟩
    simp only [ms, List.forall_mem_cons]
    exact ⟨⟨clean "k", faithful "k", rebuilt "k"⟩, ⟨clean "k", faithful "k", rebuilt "k"⟩,
      ⟨linked.clean, linked.faithful, _, rfl, rfl⟩, by simp⟩
  obtain ⟨-, -, accounts⟩ := clean_failures_leave_no_trace c (once "k") ms
  obtain ⟨listed, replays⟩ := accounts all none none "u" ⟨0, 0⟩
  exact ⟨all, rfl, listed, replays⟩

/-- A modifier that annotates and then fails. It does so whether it is attached or replayed. The
annotation stays, the list knows nothing of it, and replaying the list does not make it. -/
theorem broken_leaves_a_trace :
    let m := Rehearsal.brokenModifier
    let r := LogRecord.start none none "u" ⟨0, 0⟩
    m.Faithful ∧ (∀ r, m.apply true r = m.apply false r) ∧
    r.isFinished = false ∧ (attach m r).1 = .error (.unknownKind "broken") ∧
    (attach m r).2.annotations = [("broken", .bool true)] ∧ (attach m r).2 ≠ r ∧
    (attach m r).2.modifiers = [] ∧
    Rehearsal.fullCatalog.replay (attach m r).2.modifiers r = (.ok (), r) := by
  intro m r
  have faithful : m.Faithful := by
    refine ⟨fun _ _ _ => rfl, ?_, fun _ => rfl⟩
    rintro r q ⟨annotations, children⟩
    exact ⟨congrArg (Entries.put "broken" (Json.bool true)) annotations, children⟩
  refine ⟨faithful, fun _ => rfl, rfl, rfl, rfl, ?_, rfl, rfl⟩
  intro same
  have annotations := congrArg LogRecord.annotations same
  cases annotations

end Log

end BlockScript
