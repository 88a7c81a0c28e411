import BlockScript.Proofs.RunRecords
/-!
Replaying what a run attached to its record.

A record keeps its decoration twice: as annotations and children, and as the modifiers that made
them. Replaying the modifiers on any record puts the annotations over its own and links the
children behind its own, so a new record gets the decoration and the record itself keeps it.
-/

namespace BlockScript

open Log

variable {ε : Type}

namespace LogRecord

/-- A record with annotations put over its own, and with the children linked that it lacks. -/
def decorated (q : LogRecord) (annotations : Entries Json) (children : List String) : LogRecord :=
  { q with
    annotations := Entries.putAll annotations q.annotations
    children := q.children ++ children.filter (· ∉ q.children) }

theorem annotate_decorated {q : LogRecord} (sorted : q.annotations.Sorted)
    {annotations : Entries Json} (ordered : annotations.Sorted) (children : List String)
    (key : String) (value : Json) :
    (q.decorated annotations children).annotate key value =
      q.decorated (annotations.put key value) children := by
  have same : (Entries.putAll annotations q.annotations).put key value =
      Entries.putAll (annotations.put key value) q.annotations := by
    refine Entries.Sorted.ext ((sorted.putAll _).put key value) (sorted.putAll _) ?_
    intro name
    rw [Entries.value?_put, Entries.value?_putAll ordered.nodup,
      Entries.value?_putAll (ordered.put key value).nodup, Entries.value?_put]
    by_cases eq : name = key
    · simp [eq]
    · simp [eq]
  simp only [decorated, annotate, same]

theorem linkChild_decorated (q : LogRecord) (annotations : Entries Json) (children : List String)
    (id : String) :
    (q.decorated annotations children).linkChild id =
      q.decorated annotations (if id ∈ children then children else children ++ [id]) := by
  unfold linkChild decorated
  by_cases own : id ∈ q.children
  · by_cases linked : id ∈ children <;> simp [own, linked]
  · by_cases linked : id ∈ children <;> simp [own, linked]

/-- A record whose modifiers, replayed on any record, give that record its decoration too. -/
structure Replayable (r : LogRecord) : Prop where
  sorted : r.annotations.Sorted
  replays : ∀ q : LogRecord, q.annotations.Sorted →
    Catalog.standard.replay r.modifiers q = (.ok (), q.decorated r.annotations r.children)

theorem start_decorated {annotations : Entries Json} (ordered : annotations.Sorted)
    (children : List String) (name id : Option String) (user : String) (time : Time.Timestamp) :
    (start name id user time).decorated annotations children =
      { start name id user time with annotations, children } := by
  have put : Entries.putAll annotations [] = annotations := ordered.ofList_eq
  simp [decorated, start, put]

theorem decorated_self {r : LogRecord} (sorted : r.annotations.Sorted) :
    r.decorated r.annotations r.children = r := by
  have put : Entries.putAll r.annotations r.annotations = r.annotations := by
    refine Entries.Sorted.ext (sorted.putAll _) sorted ?_
    intro name
    rw [Entries.value?_putAll sorted.nodup]
    cases Entries.value? name r.annotations <;> rfl
  have linked : r.children.filter (· ∉ r.children) = [] := by
    rw [List.filter_eq_nil_iff]
    intro id mem
    simpa using mem
  rw [decorated, put, linked, List.append_nil]

theorem start_replayable (name id : Option String) (user : String) (time : Time.Timestamp) :
    (start name id user time).Replayable where
  sorted := .nil
  replays q _ := by simp [start, decorated, Entries.putAll, Catalog.replay]

end LogRecord

namespace Log

namespace Catalog

/-- A stock modifier survives being stored: it is replayed as it was attached. -/
theorem replayOne_stocked {m : Modifier} (stocked : m.Stocked) (r : LogRecord) :
    standard.replayOne ⟨m.kind, m.state⟩ r = m.apply false r := by
  obtain ⟨key, value, rfl⟩ | ⟨id, rfl⟩ := stocked <;> rfl

theorem replay_append_of_ok {c : Catalog} {as : List Attachment} {r q : LogRecord}
    (replayed : c.replay as r = (.ok (), q)) (bs : List Attachment) :
    c.replay (as ++ bs) r = c.replay bs q := by
  induction as generalizing r with
  | nil =>
    cases replayed
    rfl
  | cons a as ih =>
    simp only [List.cons_append, replay] at replayed ⊢
    rcases one : c.replayOne a r with ⟨result, u⟩
    rw [one] at replayed
    cases result with
    | error e => cases replayed
    | ok _ => exact ih replayed

/-- Replays a record's own modifiers on it time after time, until they cannot be. -/
def replayStoredTimes (c : Catalog) : Nat → LogRecord → Except ModifierError Unit × LogRecord
  | 0, r => (.ok (), r)
  | n + 1, r =>
    match c.replayStored r with
    | (.ok (), r) => c.replayStoredTimes n r
    | (.error e, r) => (.error e, r)

theorem replayStoredTimes_of_fixed {c : Catalog} {r : LogRecord}
    (fixed : c.replayStored r = (.ok (), r)) (n : Nat) : c.replayStoredTimes n r = (.ok (), r) := by
  induction n with
  | zero => rfl
  | succ n ih =>
    rw [replayStoredTimes, fixed]
    exact ih

end Catalog

/-- Whatever is attached, the record can still be replayed: the new modifier does to the replayed
decoration what it does to the record's own. -/
theorem attach_replayable {m : Modifier} (stocked : m.Stocked) {r : LogRecord}
    (h : r.Replayable) : (attach m r).2.Replayable := by
  have replayed (q : LogRecord) (sorted : q.annotations.Sorted) :
      Catalog.standard.replay (r.modifiers ++ [⟨m.kind, m.state⟩]) q =
        Catalog.standard.replay [⟨m.kind, m.state⟩] (q.decorated r.annotations r.children) :=
    Catalog.replay_append_of_ok (h.replays q sorted) _
  simp only [Catalog.replay, Catalog.replayOne_stocked stocked] at replayed
  unfold attach
  split
  · exact h
  · obtain ⟨key, value, rfl⟩ | ⟨id, rfl⟩ := stocked
    · refine ⟨h.sorted.put key value, ?_⟩
      intro q sorted
      refine (replayed q sorted).trans ?_
      simp only [Modifier.tag, LogRecord.annotate_decorated sorted h.sorted]
      rfl
    · have children : (r.linkChild id).children =
          if id ∈ r.children then r.children else r.children ++ [id] := by
        unfold LogRecord.linkChild
        split <;> rfl
      have rest : (r.linkChild id).annotations = r.annotations ∧
          (r.linkChild id).modifiers = r.modifiers := by
        unfold LogRecord.linkChild
        split <;> exact ⟨rfl, rfl⟩
      simp only [Modifier.childScript, Bool.false_eq_true, ↓reduceIte]
      refine ⟨by simpa only [rest.1] using h.sorted, ?_⟩
      intro q sorted
      simp only [rest.1, rest.2, children]
      refine (replayed q sorted).trans ?_
      simp only [Modifier.childScript, LogRecord.linkChild_decorated]

end Log

/-- However a run ends, its record can be replayed. -/
theorem Script.run_replayable {script : Script Stock} {env : Environment Stock ε} {w w' : World ε}
    {run : Run} (ended : script.run env w = some (run, w')) : run.log.Replayable := by
  obtain ⟨evaluated, s, v, time, root, log⟩ := Script.run_log ended
  have running : s.log.Replayable :=
    evaluateRoot_log (fun _ _ stocked h => attach_replayable stocked h)
      LogRecord.start_replayable root
  rw [log]
  exact ⟨running.sorted, running.replays⟩

/-- The modifiers in the record of a run, replayed on any new record, succeed and give it the
annotations and the children of the run, and nothing else. Replayed on the record itself, any
number of times, they succeed and leave it as it is. -/
theorem replay_restores_decoration {ε : Type} {script : Script Stock} {env : Environment Stock ε}
    {w w' : World ε} {run : Run} (ended : script.run env w = some (run, w')) :
    (∀ name id user time,
      Catalog.standard.replay run.log.modifiers (LogRecord.start name id user time) =
        (.ok (), { LogRecord.start name id user time with
          annotations := run.log.annotations
          children := run.log.children })) ∧
    ∀ n, Catalog.standard.replayStoredTimes n run.log = (.ok (), run.log) := by
  have h := Script.run_replayable ended
  refine ⟨?_, ?_⟩
  · intro name id user time
    rw [h.replays (.start name id user time) .nil, LogRecord.start_decorated h.sorted]
  · refine Catalog.replayStoredTimes_of_fixed ?_
    rw [Catalog.replayStored, h.replays _ h.sorted, LogRecord.decorated_self h.sorted]

/-- A site whose children all have one id. -/
def sameChild : Environment Stock Unit where
  site := { Site.bare [] with spawn := fun _ _ e => (.now (.ok ⟨"c", .success⟩), e) }
  debugger := none
  aborted _ := false
  abort e := e
  react e := e

/-- A run that writes one annotation twice, starts two children with one id and fails. What its
four modifiers leave is one annotation and one child, live and replayed. -/
theorem overwritten_and_linked_once :
    let literal (text : String) : Block Stock :=
      .mk ⟨"text", none, .text, [("TEXT", .string text)], []⟩ [] none
    let tag (text : String) (next : Block Stock) : Block Stock :=
      .mk ⟨"log_tag", none, .logTag, [("KEY", .string "k")], []⟩ [("VALUE", literal text)] next
    let child (next : Block Stock) : Block Stock :=
      .mk ⟨"script_child", none, .childScript, [("SCRIPT", .string "s")], []⟩ [] next
    let fails : Block Stock := .mk ⟨"script_fail", none, .failure, [], []⟩ [] none
    let script : Script Stock := ⟨tag "a" (child (tag "b" (child fails))), {}⟩
    let w : World Unit := { peers := (), origin := ⟨0, 0⟩ }
    ∃ run w', script.run sameChild w = some (run, w') ∧
      run.error = some (.failed "script reported failure") ∧
      run.log.modifiers.map Attachment.kind = ["tag", "child-script", "tag", "child-script"] ∧
      run.log.annotations = [("k", .string "b")] ∧ run.log.children = ["c"] ∧
      (∀ name id user time,
        Catalog.standard.replay run.log.modifiers (LogRecord.start name id user time) =
          (.ok (), { LogRecord.start name id user time with
            annotations := run.log.annotations
            children := run.log.children })) ∧
      ∀ n, Catalog.standard.replayStoredTimes n run.log = (.ok (), run.log) := by
  intro literal tag child fails script w
  have ended : (script.run sameChild w).map (fun x =>
      (x.1.error, x.1.log.modifiers.map Attachment.kind, x.1.log.annotations, x.1.log.children)) =
      some (some (.failed "script reported failure"),
        ["tag", "child-script", "tag", "child-script"], [("k", .string "b")], ["c"]) := by
    rfl
  obtain ⟨⟨run, w'⟩, ended, facts⟩ := Option.map_eq_some_iff.mp ended
  obtain ⟨error, kinds, annotations, children⟩ := by simpa only [Prod.mk.injEq] using facts
  exact ⟨run, w', ended, error, kinds, annotations, children, replay_restores_decoration ended⟩

end BlockScript
