import BlockScript.Proofs.Replaying
import BlockScript.Proofs.StoredRecords
/-!
The log of a run in storage.

A run attaches links to its children, and tags with values that its script computed. Whatever text
the log is written as, it is read back, and can be replayed, as long as the tagged values stay more
than four levels short of the limit of nesting, and the numbers in them read back. A tag that nests
deeper is attached all the same, and then the log cannot be read again.
-/

namespace BlockScript

open Json Log

variable {ε : Type}

mutual

theorem Value.ordered_toJson : (v : Value) → v.toJson.Ordered
  | .null => .null
  | .bool b => .bool b
  | .string s => .string s
  | .number x => by
    rw [Value.toJson]
    split
    · exact .number (.float x)
    · exact .null
  | .list items => .array (Value.ordered_toItems items)

theorem Value.ordered_toItems : (vs : List Value) → ∀ j ∈ Value.toJson.toItems vs, j.Ordered
  | [] => nofun
  | v :: vs => List.forall_mem_cons.mpr ⟨v.ordered_toJson, Value.ordered_toItems vs⟩

end

mutual

/-- What is not finite is written as null. -/
theorem Value.finite_toJson : (v : Value) → v.toJson.Finite
  | .null => nofun
  | .bool b => finite_bool b
  | .string s => finite_string s
  | .number x => by
    rw [Value.toJson]
    split
    · next finite => exact List.forall_mem_singleton.mpr finite
    · nofun
  | .list items => finite_array.mpr (Value.finite_toItems items)

theorem Value.finite_toItems : (vs : List Value) → ∀ j ∈ Value.toJson.toItems vs, j.Finite
  | [] => nofun
  | v :: vs => List.forall_mem_cons.mpr ⟨v.finite_toJson, Value.finite_toItems vs⟩

end

namespace Log

/-- The modifiers that runs attach: links to children, and tags with values. -/
def Modifier.Valued (m : Modifier) : Prop :=
  (∃ key, ∃ value : Value, m = .tag key value.toJson) ∨ ∃ id, m = .childScript id

/-- The value of a tag. -/
def Attachment.tagged? (a : Attachment) : Option Json :=
  if a.kind = "tag" then a.state.member? "value" else none

end Log

/-- A chain of standard blocks attaches no modifiers but such. -/
theorem Block.program_attaches (b : Block Stock) :
    b.program.All fun a =>
      (a.Plain ∨ a = .openScope ∨ ∃ previous, a = .closeScope previous) ∧
        ∀ m, a = .attach m → m.Valued := by
  have silent {a : Action Stock} (plain : a.Plain) (other : ∀ m, a ≠ .attach m) :
      (a.Plain ∨ a = .openScope ∨ ∃ previous, a = .closeScope previous) ∧
        ∀ m, a = .attach m → m.Valued :=
    ⟨.inl plain, fun m attaches => absurd attaches (other m)⟩
  have c := Program.compositional_all (β := Stock)
    (P := fun a => (a.Plain ∨ a = .openScope ∨ ∃ previous, a = .closeScope previous) ∧
      ∀ m, a = .attach m → m.Valued)
    ⟨.inr (.inl rfl), nofun⟩ fun previous => ⟨.inr (.inr ⟨previous, rfl⟩), nofun⟩
  refine b.program_holds c
    (fun _ => c.enter (silent trivial nofun) (silent nofun nofun))
    (fun b => c.act (.stop .leave b) (silent nofun nofun))
    (fun _ _ _ _ _ => c.spawnChild (silent trivial nofun) (silent trivial nofun) ?_) ?_
  · intro id
    refine ⟨.inl (.inr ⟨id, rfl⟩), ?_⟩
    rintro m ⟨⟩
    exact .inr ⟨id, rfl⟩
  · intro d _ a performs
    refine ⟨.inl (Stock.performs_own performs).1, ?_⟩
    rintro m rfl
    obtain eq | eq | ⟨_, eq⟩ | ⟨_, _, eq⟩ | ⟨key, value, eq⟩ | ⟨_, -, eq | ⟨_, eq | eq⟩⟩ :=
      Stock.performs_cases performs
    · cases eq
    · cases eq
    · cases eq
    · cases eq
    · cases eq
      exact .inl ⟨key, value, rfl⟩
    · cases eq
    · cases eq
    · cases eq

namespace LogRecord

/-- The values tagged in a record, those that were overwritten included. -/
def tagged (r : LogRecord) : List Json :=
  r.modifiers.filterMap Attachment.tagged?

/-- A record decorated by such modifiers alone. -/
structure Valued (r : LogRecord) : Prop where
  modifiers : ∀ a ∈ r.modifiers, ∃ m : Modifier, m.Valued ∧ a = ⟨m.kind, m.state⟩
  annotations : ∀ e ∈ r.annotations, ∃ value : Value, e.2 = value.toJson ∧
    ⟨"tag", .object [("key", .string e.1), ("value", e.2)]⟩ ∈ r.modifiers

variable {r : LogRecord}

theorem start_valued (name id : Option String) (user : String) (time : Time.Timestamp) :
    (start name id user time).Valued :=
  ⟨nofun, nofun⟩

theorem attach_valued {m : Modifier} (valued : m.Valued) (h : r.Valued) :
    (attach m r).2.Valued := by
  have kept (q : LogRecord) (same : q.modifiers = r.modifiers) :
      ∀ a ∈ q.modifiers ++ [⟨m.kind, m.state⟩],
        ∃ m : Modifier, m.Valued ∧ a = ⟨m.kind, m.state⟩ := by
    intro a mem
    rw [same] at mem
    obtain before | new := List.mem_append.mp mem
    · exact h.modifiers a before
    · exact ⟨m, valued, List.mem_singleton.mp new⟩
  have older (e : String × Json) (mem : e ∈ r.annotations) : ∃ value : Value, e.2 = value.toJson ∧
      ⟨"tag", .object [("key", .string e.1), ("value", e.2)]⟩ ∈
        r.modifiers ++ [⟨m.kind, m.state⟩] := by
    obtain ⟨value, eq, attached⟩ := h.annotations e mem
    exact ⟨value, eq, List.mem_append_left _ attached⟩
  unfold attach
  split
  · exact h
  · obtain ⟨key, value, rfl⟩ | ⟨id, rfl⟩ := valued
    · refine ⟨kept (r.annotate key value.toJson) rfl, ?_⟩
      intro e mem
      obtain rfl | before := Entries.mem_put mem
      · exact ⟨value, rfl, List.mem_append_right _ (List.mem_singleton.mpr rfl)⟩
      · exact older e before
    · have rest : (r.linkChild id).annotations = r.annotations ∧
          (r.linkChild id).modifiers = r.modifiers := by
        unfold linkChild
        split <;> exact ⟨rfl, rfl⟩
      refine ⟨kept (r.linkChild id) rest.2, ?_⟩
      simp only [Modifier.childScript, Bool.false_eq_true, ↓reduceIte, rest.1, rest.2]
      exact older

/-- What was attached is a tag, with its value among those tagged, or a link. -/
theorem Valued.cases (h : r.Valued) {a : Attachment} (attached : a ∈ r.modifiers) :
    (∃ key, ∃ value : Value, value.toJson ∈ r.tagged ∧
      a = ⟨"tag", .object [("key", .string key), ("value", value.toJson)]⟩) ∨
    ∃ id, a = ⟨"child-script", .object [("child_id", .string id)]⟩ := by
  obtain ⟨m, ⟨key, value, rfl⟩ | ⟨id, rfl⟩, rfl⟩ := h.modifiers a attached
  · exact .inl ⟨key, value, List.mem_filterMap.mpr ⟨_, attached, rfl⟩, rfl⟩
  · exact .inr ⟨id, rfl⟩

/-- The state of a tag nests one level deeper than its value. -/
theorem depth_tag (key : String) (v : Json) :
    (Json.object [("key", .string key), ("value", v)]).depth = v.depth + 1 := by
  simp [Json.depth, Json.depth.depthEntries]

theorem legible_tag (key : String) (v : Json) :
    (Json.object [("key", .string key), ("value", v)]).Legible ↔ v.Legible := by
  rw [legible_object, List.forall_mem_cons, List.forall_mem_singleton]
  exact and_iff_right nofun

theorem shallow_tag (key : String) (v : Json) :
    (⟨"tag", .object [("key", .string key), ("value", v)]⟩ : Attachment).Shallow ↔
      v.depth + 4 < nestingLimit := by
  rw [Attachment.Shallow, depth_tag]
  omega

/-- Links fit in anyway, so it is up to the tagged values whether the record is read back. -/
theorem Valued.fits_iff (h : r.Valued) :
    (∀ a ∈ r.modifiers, a.Shallow ∧ a.state.Legible) ↔
      ∀ v ∈ r.tagged, v.depth + 4 < nestingLimit ∧ v.Legible := by
  constructor
  · intro fits v mem
    obtain ⟨a, attached, value⟩ := List.mem_filterMap.mp mem
    have room := fits a attached
    obtain ⟨key, _, -, rfl⟩ | ⟨id, rfl⟩ := h.cases attached
    · cases value
      rwa [shallow_tag, legible_tag] at room
    · cases value
  · intro fits a attached
    obtain ⟨key, value, mem, rfl⟩ | ⟨id, rfl⟩ := h.cases attached
    · rw [shallow_tag, legible_tag]
      exact fits _ mem
    · refine ⟨?_, nofun⟩
      change 3 + 1 < nestingLimit
      decide

theorem Valued.deep_tag (h : r.Valued) {v : Json} (mem : v ∈ r.tagged)
    (deep : nestingLimit ≤ v.depth + 4) : ∃ a ∈ r.modifiers, ¬a.Shallow := by
  obtain ⟨a, attached, value⟩ := List.mem_filterMap.mp mem
  refine ⟨a, attached, ?_⟩
  obtain ⟨key, _, -, rfl⟩ | ⟨id, rfl⟩ := h.cases attached
  · cases value
    rw [shallow_tag]
    exact Nat.not_lt.mpr deep
  · cases value

theorem Valued.storable (h : r.Valued) (wf : r.WellFormed) (dated : r.Dated) : r.Storable := by
  have states : ∀ a ∈ r.modifiers, a.state.Ordered ∧ a.state.Finite := by
    intro a attached
    obtain ⟨key, value, -, rfl⟩ | ⟨id, rfl⟩ := h.cases attached
    · have before : "key" < "value" := by decide
      have sorted : Entries.Sorted [("key", Json.string key), ("value", value.toJson)] :=
        List.pairwise_pair.mpr before
      refine ⟨.object sorted ?_, finite_object.mpr ?_⟩
      · exact List.forall_mem_cons.mpr
          ⟨.string key, List.forall_mem_singleton.mpr value.ordered_toJson⟩
      · exact List.forall_mem_cons.mpr
          ⟨finite_string key, List.forall_mem_singleton.mpr value.finite_toJson⟩
    · have sorted : Entries.Sorted [("child_id", Json.string id)] := List.pairwise_singleton _ _
      refine ⟨.object sorted ?_, finite_object.mpr ?_⟩
      · exact List.forall_mem_singleton.mpr (.string id)
      · exact List.forall_mem_singleton.mpr (finite_string id)
  refine ⟨wf, dated, states, ?_⟩
  intro e mem
  obtain ⟨value, -, attached⟩ := h.annotations e mem
  exact ⟨_, attached, "value", rfl⟩

end LogRecord

theorem World.moment_wellFormed (w : World ε) : w.moment.WellFormed :=
  .inl (Nat.mod_lt _ (by decide))

namespace Script

variable {script : Script Stock} {env : Environment Stock ε} {w w' : World ε} {run : Run}

/-- The log of a run is well formed, and decorated with values and links alone. -/
theorem run_valued (ended : script.run env w = some (run, w')) :
    run.log.Valued ∧ run.log.WellFormed := by
  obtain ⟨evaluated, s, v, u, root, log⟩ := run_log ended
  have start : (script.initial env w).log.Valued ∧
      (script.initial env w).log.started = w.moment := ⟨LogRecord.start_valued _ _ _ _, rfl⟩
  have kept : s.log.Valued ∧ s.log.started = w.moment := by
    rw [evaluateRoot_log_eq root]
    refine script.root.program_attaches.run_keeps
      (Q := fun s => s.log.Valued ∧ s.log.started = w.moment) ?_ start (script.limited w)
    intro a t v ⟨usual, attaches⟩ before
    obtain same | ⟨m, rfl, stocked, attached⟩ := env.perform_log usual t v
    · rw [same]
      exact before
    · obtain ⟨_, _, _, decorated⟩ := attach_decorates stocked t.log
      rw [attached]
      refine ⟨LogRecord.attach_valued (attaches m rfl) before.1, ?_⟩
      rw [decorated]
      exact before.2
  have sorted := (run_replayable ended).sorted
  rw [log] at sorted ⊢
  refine ⟨⟨kept.1.modifiers, kept.1.annotations⟩, sorted, ?_, ?_⟩
  · rw [kept.2]
    exact w.moment_wellFormed
  · rintro t ⟨⟩
    exact u.moment_wellFormed

end Script

/-- The log of a run, in any of its texts, is read back as it was if every value that was tagged
stays more than four levels short of the limit and its numbers read back, and only then. With a tag
that nests deeper it is refused. The log itself can be replayed, and comes to the same log. That the
clock shows days that exist is taken for granted. -/
theorem log_survives_storage_iff_tags_fit {script : Script Stock} {env : Environment Stock ε}
    {w w' : World ε} {run : Run} (ended : script.run env w = some (run, w'))
    (dated : run.log.Dated) :
    (∀ text ∈ run.log.texts,
      (LogRecord.ofText? text = some run.log ↔
        ∀ v ∈ run.log.tagged, v.depth + 4 < nestingLimit ∧ v.Legible) ∧
      ∀ v ∈ run.log.tagged, nestingLimit ≤ v.depth + 4 → LogRecord.ofText? text = none) ∧
    Catalog.standard.replayStored run.log = (.ok (), run.log) := by
  obtain ⟨valued, wf⟩ := Script.run_valued ended
  have storable := valued.storable wf dated
  have replayed := Script.run_replayable ended
  constructor
  · intro text written
    constructor
    · rw [storable.ofText?_texts_iff written, valued.fits_iff]
    · intro v mem deep
      obtain ⟨a, attached, deep⟩ := valued.deep_tag mem deep
      exact storable.ofText?_texts_deep written attached deep
  · rw [Catalog.replayStored, replayed.replays _ replayed.sorted,
      LogRecord.decorated_self replayed.sorted]

/-- A value inside so many lists. -/
def Value.nested (v : Value) : Nat → Value
  | 0 => v
  | n + 1 => .list [v.nested n]

theorem Value.depth_nested (v : Value) (n : Nat) :
    (v.nested n).toJson.depth = v.toJson.depth + n := by
  induction n with
  | zero => rfl
  | succ n ih => simp [Value.nested, Value.toJson, Value.toJson.toItems, Json.depth,
      Json.depth.depthItems, ih, Nat.add_assoc]

theorem Value.numbers_nested (v : Value) (n : Nat) :
    (v.nested n).toJson.numbers = v.toJson.numbers := by
  induction n with
  | zero => rfl
  | succ n ih => simp [Value.nested, Value.toJson, Value.toJson.toItems, Json.numbers,
      Json.numbers.numbersItems, ih]

/-- A site that presets a variable and has no services. -/
def presetting (v : Value) : Environment Stock Unit where
  site := .bare [("x", v)]
  debugger := none
  aborted _ := false
  abort e := e
  react e := e

/-- A script that tags what is preset. -/
def tagsPreset : Script Stock :=
  ⟨.mk ⟨"log_tag", none, .logTag, [("KEY", .string "k")], []⟩
    [("VALUE", .mk ⟨"variables_get", none, .getVariable, [("VAR", .string "x")], []⟩ [] none)]
    none, {}⟩

/-- The start of 1970. -/
def epoch : World Unit := { peers := (), origin := ⟨0, 0⟩ }

theorem tagsPreset_run (v : Value) : ∃ run w',
    tagsPreset.run (presetting v) epoch = some (run, w') ∧ run.log.Dated ∧
      run.log.tagged = [v.toJson] := by
  have valid : epoch.moment.date.isValid = true := by decide
  have ended : (tagsPreset.run (presetting v) epoch).map
      (fun x => (x.1.log.started, x.1.log.finished, x.1.log.tagged)) =
      some (epoch.moment, some epoch.moment, [v.toJson]) := by
    rfl
  obtain ⟨⟨run, w'⟩, ended, facts⟩ := Option.map_eq_some_iff.mp ended
  obtain ⟨started, finished, tagged⟩ := by simpa only [Prod.mk.injEq] using facts
  refine ⟨run, w', ended, ⟨?_, ?_⟩, tagged⟩
  · rw [started]
    exact valid
  · intro t mem
    rw [finished] at mem
    cases mem
    exact valid

theorem half_readsBack : (Number.float 0.5).ReadsBack := by
  have written : (Number.float 0.5).chars = ['0', '.', '5'] := by decide +kernel
  have read : Decimal.scaled? ['0'] ['5'] 0 = some 0.5 := by decide +kernel
  have parsed : Syntax.ofText? (Json.number (.float 0.5)).compact =
      some (.number ⟨false, ['0'], some ['5'], none⟩) := by
    simp only [compact, chars, written, Syntax.ofText?, String.toList_ofList]
    rfl
  simp [Number.ReadsBack, ofText?, parsed, Syntax.depth, nestingLimit, Syntax.json?,
    NumberToken.number?, NumberToken.integral, read]

/-- A number inside 123 lists is tagged, stored and replayed. -/
theorem tag_within_the_limit :
    ∃ run w',
      tagsPreset.run (presetting ((Value.number 0.5).nested 123)) epoch = some (run, w') ∧
      (∀ text ∈ run.log.texts, LogRecord.ofText? text = some run.log) ∧
      Catalog.standard.replayStored run.log = (.ok (), run.log) := by
  obtain ⟨run, w', ended, dated, tagged⟩ := tagsPreset_run ((Value.number 0.5).nested 123)
  obtain ⟨stored, replays⟩ := log_survives_storage_iff_tags_fit ended dated
  refine ⟨run, w', ended, ?_, replays⟩
  intro text written
  rw [(stored text written).1, tagged, List.forall_mem_singleton]
  constructor
  · rw [Value.depth_nested]
    decide
  · rw [Legible, Value.numbers_nested]
    exact List.forall_mem_singleton.mpr half_readsBack

/-- Nothing inside 124 lists is tagged, and the log of the run is lost. -/
theorem tag_beyond_the_limit :
    ∃ run w', tagsPreset.run (presetting (Value.null.nested 124)) epoch = some (run, w') ∧
      ∀ text ∈ run.log.texts, LogRecord.ofText? text = none := by
  obtain ⟨run, w', ended, dated, tagged⟩ := tagsPreset_run (Value.null.nested 124)
  refine ⟨run, w', ended, ?_⟩
  obtain ⟨valued, wf⟩ := Script.run_valued ended
  have mem : (Value.null.nested 124).toJson ∈ run.log.tagged := by
    rw [tagged]
    exact List.mem_singleton.mpr rfl
  have deep : nestingLimit ≤ (Value.null.nested 124).toJson.depth + 4 := by
    rw [Value.depth_nested]
    decide
  obtain ⟨a, attached, deep⟩ := valued.deep_tag mem deep
  intro text written
  exact (valued.storable wf dated).ofText?_texts_deep written attached deep

end BlockScript
