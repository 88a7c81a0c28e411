import BlockScript.Log.Codec
import BlockScript.Proofs.EntryMaps
import BlockScript.Proofs.TimestampText
/-!
Log records that are written and read again.

A record is written as a table of its fields, some of which are left out. A reader that asks for the
fields by name finds those that are there and knows what the others stand for, so it ends up with
the record. Whatever else can be read as a record comes to the same when it is written.
-/

namespace BlockScript

open Json Time

theorem mapM_eq_some_map {α β : Type} {f : α → Option β} {g : α → β} {xs : List α}
    (h : ∀ x ∈ xs, f x = some (g x)) : xs.mapM f = some (xs.map g) := by
  induction xs with
  | nil => rfl
  | cons x xs ih =>
    have rest := ih fun y mem => h y (List.mem_cons_of_mem x mem)
    rw [List.mapM_cons, h x List.mem_cons_self, rest]
    rfl

/-- The members of an object, from a table of what its fields hold, if anything. -/
def present (table : List (String × Option Json)) : List (String × Json) :=
  table.flatMap fun field => field.2.elim [] fun v => [(field.1, v)]

section
variable {table : List (String × Option Json)}

theorem names_present_sublist (table : List (String × Option Json)) :
    (Entries.names (present table)).Sublist (table.map Prod.fst) := by
  induction table with
  | nil => exact .slnil
  | cons field table ih =>
    obtain ⟨name, value⟩ := field
    cases value with
    | none => exact ih.cons name
    | some v => exact ih.cons_cons name

theorem value?_present (unique : (table.map Prod.fst).Nodup) :
    ∀ field ∈ table, Entries.value? field.1 (present table) = field.2 := by
  induction table with
  | nil => nofun
  | cons first table ih =>
    obtain ⟨name, value⟩ := first
    obtain ⟨fresh, others⟩ := List.nodup_cons.mp unique
    have absent : Entries.value? name (present table) = none := by
      rw [Entries.value?_eq_none_iff]
      intro e mem eq
      have named : e.1 ∈ Entries.names (present table) := List.mem_map_of_mem mem
      exact fresh (eq ▸ (names_present_sublist table).subset named)
    intro field mem
    cases value with
    | none =>
      obtain rfl | mem := List.mem_cons.mp mem
      · exact absent
      · exact ih others field mem
    | some v =>
      change Entries.value? field.1 ((name, v) :: present table) = field.2
      rw [Entries.value?_cons]
      obtain rfl | mem := List.mem_cons.mp mem
      · exact if_pos rfl
      · have named : field.1 ∈ table.map Prod.fst := List.mem_map_of_mem mem
        have other : name ≠ field.1 := fun eq => fresh (eq ▸ named)
        rw [if_neg other]
        exact ih others field mem

/-- Putting the members in order does not change what they hold. -/
theorem value?_ofList_present (unique : (table.map Prod.fst).Nodup) :
    ∀ field ∈ table, Entries.value? field.1 (Entries.ofList (present table)) = field.2 := by
  intro field mem
  have apart : (Entries.names (present table)).Nodup := unique.sublist (names_present_sublist table)
  have put : Entries.value? field.1 (Entries.ofList (present table)) = _ :=
    Entries.value?_putAll apart [] field.1
  rw [put, value?_present unique field mem]
  simp

end

namespace Json.Node

/-- Among members with different names the one with a name is the value under it. -/
theorem unique?_eq_value? {α : Type} {members : List (String × α)}
    (unique : (Entries.names members).Nodup) (name : String) :
    Node.unique? name members = some (Entries.value? name members) := by
  induction members with
  | nil => rfl
  | cons m members ih =>
    obtain ⟨n, v⟩ := m
    obtain ⟨fresh, unique⟩ := List.nodup_cons.mp unique
    by_cases eq : n = name
    · subst eq
      have none_left : (members.filter fun m => m.1 == n) = [] := by
        rw [List.filter_eq_nil_iff]
        intro m mem named
        exact fresh (List.mem_map.mpr ⟨m, mem, by simpa using named⟩)
      simp [Node.unique?, none_left, Entries.value?_cons]
    · have rest := ih unique
      simpa [Node.unique?, eq, Entries.value?_cons] using rest

section
variable {α β : Type} [Node α]

theorem fields?_of_members {x : α} {members : List (String × α)}
    (given : Node.members? x = some members) (unique : (Entries.names members).Nodup)
    (names : List String) :
    Node.fields? names x = some (names.map fun n => Entries.value? n members) := by
  simp only [Node.fields?, given]
  exact mapM_eq_some_map fun n _ => unique?_eq_value? unique n

/-- What a table holds is found under the names of the table, shown as the members are. -/
theorem fields?_shown {f : Json → α} {x : α} {members : List (String × Json)}
    {table : List (String × Option Json)}
    (given : Node.members? x = some (members.map fun m => (m.1, f m.2)))
    (unique : (Entries.names members).Nodup)
    (held : ∀ field ∈ table, Entries.value? field.1 members = field.2) :
    Node.fields? (table.map Prod.fst) x = some (table.map fun field => field.2.map f) := by
  rw [← Entries.names_map f] at unique
  rw [fields?_of_members given unique, List.map_map]
  refine congrArg some (List.map_congr_left fun field mem => ?_)
  exact (Entries.value?_map f field.1 members).trans (congrArg (Option.map f) (held field mem))

/-- A field that is left out when there is nothing in it. -/
theorem optional_map {write : β → α} {read : α → Option β} {o : Option β}
    (reads : ∀ b ∈ o, read (write b) = some b) (full : ∀ b, Node.isNull (write b) = false) :
    Node.optional read (o.map write) = some o := by
  cases o with
  | none => rfl
  | some b => simp [Node.optional, full b, reads b rfl]

/-- A way to show JSON trees that keeps what a reader can ask about strings, lists of strings and
truth values. -/
structure Shows (f : Json → α) : Prop where
  isNull : ∀ j, Node.isNull (f j) = j.isNull
  string : ∀ s, Node.string? (f (.string s)) = some s
  bool : ∀ b, Node.bool? (f (.bool b)) = some b
  strings : ∀ ss, Node.listOf Node.string? (f (.array (ss.map .string))) = some ss

end

variable {α : Type} {write : α → Json} {read : Json → Option α}

theorem listOf_map (reads : ∀ a, read (write a) = some a) (as : List α) :
    Node.listOf read (Json.array (as.map write)) = some as := by
  change (as.map write).mapM read = some as
  have each : ∀ a ∈ as, (read ∘ write) a = some (id a) := fun a _ => reads a
  rw [List.mapM_map, mapM_eq_some_map each, List.map_id]

theorem entriesOf_object {es : Entries Json} (sorted : es.Sorted) :
    Node.entriesOf Node.json? (Json.object es) = some es := by
  have each : ∀ e ∈ es, ((Node.json? e.2).map fun v => (e.1, v)) = some (id e) := fun _ _ => rfl
  change (es.mapM fun e => (Node.json? e.2).map fun v => (e.1, v)).map Entries.ofList = some es
  rw [mapM_eq_some_map each, List.map_id, Option.map_some, sorted.ofList_eq]

/-- A field that is left out when it is empty, and counts as empty when it is left out. -/
theorem defaulted_unless_empty {as : List α} {read : Json → Option (List α)} {j : Json}
    (reads : read j = some as) :
    Node.defaulted [] read (if as.isEmpty then none else some j) = some as := by
  cases as with
  | nil => rfl
  | cons a as => exact reads

theorem shows_id : Node.Shows (id : Json → Json) where
  isNull _ := rfl
  string _ := rfl
  bool _ := rfl
  strings := listOf_map fun s => (rfl : Node.string? (Json.string s) = some s)

end Json.Node

theorem Log.Attachment.read?_toJson (a : Log.Attachment) :
    Log.Attachment.read? a.toJson = some a := by
  have fields : Node.fields? ["kind", "state"] a.toJson =
      some [some (.string a.kind), some a.state] := by
    change ["kind", "state"].mapM
      (fun n => Node.unique? n [("kind", Json.string a.kind), ("state", a.state)]) = _
    simp [Node.unique?]
  simp only [Log.Attachment.read?, fields, Option.bind_eq_bind, Option.bind_some]
  rfl

namespace LogRecord

/-- What the fields of a record hold when it is written, in their order. -/
def fieldTable (r : LogRecord) : List (String × Option Json) :=
  [("scriptName", r.scriptName.map .string), ("scriptId", r.scriptId.map .string),
    ("result", some (.string r.result.name)), ("started", some (.string r.started.text)),
    ("finished", r.finished.map fun t => .string t.text), ("details", some (.string r.details)),
    ("children", some (.array (r.children.map .string))),
    ("groupComplete", r.groupComplete.map .bool), ("user", some (.string r.user)),
    ("annotations", if r.annotations.isEmpty then none else some (.object r.annotations)),
    ("modifiers",
      if r.modifiers.isEmpty then none else some (.array (r.modifiers.map (·.toJson))))]

theorem members_eq_present (r : LogRecord) : r.members = present r.fieldTable := by
  have left_out (c : Bool) (name : String) (v : Json) :
      (if c then none else some v).elim [] (fun v => [(name, v)]) =
        if c then [] else [(name, v)] := by
    cases c <;> rfl
  simp only [members, present, fieldTable, List.flatMap_cons, List.flatMap_nil, left_out,
    Option.elim_some, List.append_assoc, List.append_nil, List.cons_append, List.nil_append]

/-- The annotations are in order, and the times are well formed. -/
structure WellFormed (r : LogRecord) : Prop where
  annotations : r.annotations.Sorted
  started : r.started.WellFormed
  finished : ∀ t ∈ r.finished, t.WellFormed

/-- The times lie in the years 0 to 9999. -/
structure FourDigitYears (r : LogRecord) : Prop where
  started : r.started.FourDigitYear
  finished : ∀ t ∈ r.finished, t.FourDigitYear

/-- The times fall on days that exist. -/
structure Dated (r : LogRecord) : Prop where
  started : r.started.date.isValid = true
  finished : ∀ t ∈ r.finished, t.date.isValid = true

theorem FourDigitYears.dated {r : LogRecord} (h : r.FourDigitYears) : r.Dated :=
  ⟨h.started.isValid, fun t mem => (h.finished t mem).isValid⟩

section
variable {α : Type} [Node α] {f : Json → α} (shows : Node.Shows f)
include shows

theorem readOutcome?_shown (name : String) :
    readOutcome? (f (.string name)) = Outcome.ofName? name := by
  simp only [readOutcome?, Node.constant?, shows.string, Option.bind_some]

theorem readTimestamp?_shown (text : String) :
    readTimestamp? (f (.string text)) = Timestamp.ofText? text := by
  simp only [readTimestamp?, shows.string, Option.bind_some]

/-- A reader that finds what the fields of a record hold gets the record, with the annotations and
modifiers that it makes of those two fields. -/
theorem read?_of_fields {x : α} {r : LogRecord} (wf : r.WellFormed) (dated : r.Dated)
    (fields : Node.fields? (r.fieldTable.map Prod.fst) x =
      some (r.fieldTable.map fun field => field.2.map f)) :
    read? x =
      (Node.defaulted [] (Node.entriesOf Node.json?)
        ((if r.annotations.isEmpty then none else some (.object r.annotations)).map f)).bind
      fun annotations =>
        (Node.defaulted [] (Node.listOf Log.Attachment.read?)
          ((if r.modifiers.isEmpty then none else
            some (.array (r.modifiers.map (·.toJson)))).map f)).bind
        fun modifiers => some { r with annotations, modifiers } := by
  change Node.fields? ["scriptName", "scriptId", "result", "started", "finished", "details",
    "children", "groupComplete", "user", "annotations", "modifiers"] x = _ at fields
  have text (o : Option String) :
      Node.optional Node.string? ((o.map Json.string).map f) = some o := by
    rw [Option.map_map]
    exact Node.optional_map (fun s _ => shows.string s) fun s => shows.isNull (.string s)
  have result : readOutcome? (f (.string r.result.name)) = some r.result := by
    rw [readOutcome?_shown shows, Outcome.ofName?_name]
  have started : readTimestamp? (f (.string r.started.text)) = some r.started := by
    rw [readTimestamp?_shown shows, Timestamp.ofText?_text wf.started dated.started]
  have finished : Node.optional readTimestamp?
      ((r.finished.map fun t => Json.string t.text).map f) = some r.finished := by
    rw [Option.map_map]
    refine Node.optional_map (fun t mem => ?_) fun t => shows.isNull (.string t.text)
    exact (readTimestamp?_shown shows t.text).trans
      (Timestamp.ofText?_text (wf.finished t mem) (dated.finished t mem))
  have group : Node.optional Node.bool? ((r.groupComplete.map Json.bool).map f) =
      some r.groupComplete := by
    rw [Option.map_map]
    exact Node.optional_map (fun b _ => shows.bool b) fun b => shows.isNull (.bool b)
  have children : Node.defaulted [] (Node.listOf Node.string?)
      (some (f (.array (r.children.map .string)))) = some r.children := shows.strings r.children
  have user : Node.defaulted anonymous Node.string? (some (f (.string r.user))) = some r.user :=
    shows.string r.user
  simp only [read?, fields, fieldTable, List.map_cons, List.map_nil, Option.map_some,
    Option.bind_eq_bind, Option.bind_some, Node.required, text, result, started, finished,
    shows.string, children, group, user]
  rfl

end

theorem readTimestamp?_string (text : String) :
    readTimestamp? (Json.string text) = Timestamp.ofText? text :=
  readTimestamp?_shown Node.shows_id text

theorem fieldTable_unique (r : LogRecord) : (r.fieldTable.map Prod.fst).Nodup := by
  change ["scriptName", "scriptId", "result", "started", "finished", "details", "children",
    "groupComplete", "user", "annotations", "modifiers"].Nodup
  decide

theorem read?_toJson {r : LogRecord} (wf : r.WellFormed) (years : r.FourDigitYears) :
    read? r.toJson = some r := by
  have held := value?_ofList_present r.fieldTable_unique
  rw [← members_eq_present] at held
  have sorted : (Entries.ofList r.members).Sorted := Entries.Sorted.putAll .nil r.members
  have given : Node.members? r.toJson =
      some ((Entries.ofList r.members).map fun m => (m.1, id m.2)) := by
    simp [toJson, Node.members?]
  rw [read?_of_fields Node.shows_id wf years.dated (Node.fields?_shown given sorted.nodup held),
    Option.map_id]
  have annotations : Node.defaulted [] (Node.entriesOf Node.json?)
      (if r.annotations.isEmpty then none else some (Json.object r.annotations)) =
        some r.annotations :=
    Node.defaulted_unless_empty (Node.entriesOf_object wf.annotations)
  have modifiers : Node.defaulted [] (Node.listOf Log.Attachment.read?)
      (if r.modifiers.isEmpty then none else
        some (Json.array (r.modifiers.map (·.toJson)))) = some r.modifiers :=
    Node.defaulted_unless_empty (Node.listOf_map Log.Attachment.read?_toJson r.modifiers)
  simp only [id, annotations, modifiers]
  rfl

section
variable {α β : Type} [Node α]

theorem sorted_of_defaulted {read : α → Option β} {o : Option α} {es : Entries β}
    (given : Node.defaulted [] (Node.entriesOf read) o = some es) : es.Sorted := by
  cases o with
  | none =>
    cases given
    exact .nil
  | some x =>
    obtain ⟨members, -, listed⟩ := Option.bind_eq_some_iff.mp given
    obtain ⟨values, -, rfl⟩ := Option.map_eq_some_iff.mp listed
    exact Entries.Sorted.putAll .nil values

theorem wellFormed_of_readTimestamp? {x : α} {t : Timestamp} (read : readTimestamp? x = some t) :
    t.WellFormed := by
  obtain ⟨text, -, read⟩ := Option.bind_eq_some_iff.mp read
  exact Timestamp.wellFormed_of_ofText? read

/-- Every record that was read is well formed. -/
theorem wellFormed_of_read? {x : α} {r : LogRecord} (read : read? x = some r) : r.WellFormed := by
  simp only [read?, Option.bind_eq_bind, Option.bind_eq_some_iff] at read
  obtain ⟨fields, -, read⟩ := read
  split at read
  · simp only [Option.bind_eq_some_iff] at read
    obtain ⟨_, -, _, -, _, -, start, started, finish, finished, _, -, _, -, _, -, _, -, tags,
      annotations, _, -, record⟩ := read
    cases record
    refine ⟨sorted_of_defaulted annotations, ?_, ?_⟩
    · unfold Node.required at started
      split at started
      · exact wellFormed_of_readTimestamp? started
      · cases started
    · intro t mem
      unfold Node.optional at finished
      split at finished
      · split at finished
        · cases finished
          cases mem
        · obtain ⟨u, read, rfl⟩ := Option.map_eq_some_iff.mp finished
          cases mem
          exact wellFormed_of_readTimestamp? read
      · cases finished
        cases mem
  · cases read

end

end LogRecord

/-- A record with well-formed times in the years 0 to 9999 and with annotations in order is read
back as it was written. Whatever else is read as a record of those years, from a tree or from a
text, is read again from what is written of it. -/
theorem records_survive_storage :
    (∀ r : LogRecord, r.WellFormed → r.FourDigitYears → LogRecord.read? r.toJson = some r) ∧
    ∀ (α : Type) [Node α] (x : α) (r : LogRecord), LogRecord.read? x = some r → r.FourDigitYears →
      LogRecord.read? r.toJson = some r := by
  refine ⟨fun r => LogRecord.read?_toJson, ?_⟩
  intro α _ x r read years
  exact LogRecord.read?_toJson (LogRecord.wellFormed_of_read? read) years

/-- A record of a run that was called paused, started in a leap second of another time zone, and a
record in which nothing is left out, finished in the last nanosecond of the year 9999. -/
theorem paused_in_a_leap_second :
    let stored : Json :=
      .object [("details", .string "waiting"), ("finished", .null), ("result", .string "Paused"),
        ("started", .string "2017-01-01 00:59:60.25+01:00"), ("unknown", .bool true)]
    let paused : LogRecord :=
      { scriptName := none, scriptId := none, result := .active,
        started := ⟨1483228799, 1250000000⟩, finished := none, details := "waiting", children := [],
        groupComplete := none, user := "anonymous", annotations := [], modifiers := [] }
    let full : LogRecord :=
      { paused with
        scriptName := some "a", scriptId := some "b", finished := some ⟨253402300799, 999999999⟩,
        children := ["c"], groupComplete := some true,
        annotations := [("d", .null), ("e", .bool false)], modifiers := [⟨"f", .null⟩] }
    (LogRecord.read? stored = some paused ∧ LogRecord.read? paused.toJson = some paused) ∧
      LogRecord.read? full.toJson = some full := by
  intro stored paused full
  have started : Timestamp.ofText? "2017-01-01 00:59:60.25+01:00" =
      some ⟨1483228799, 1250000000⟩ := by decide +kernel
  have fields : Node.fields? ["scriptName", "scriptId", "result", "started", "finished", "details",
      "children", "groupComplete", "user", "annotations", "modifiers"] stored =
      some [none, none, some (.string "Paused"), some (.string "2017-01-01 00:59:60.25+01:00"),
        some .null, some (.string "waiting"), none, none, none, none, none] := rfl
  have read : LogRecord.read? stored = some paused := by
    simp only [LogRecord.read?, fields, Option.bind_eq_bind, Option.bind_some, Node.required,
      LogRecord.readTimestamp?_string, started]
    rfl
  have start : paused.started.FourDigitYear := by
    unfold Timestamp.FourDigitYear
    decide +kernel
  have finish : Timestamp.FourDigitYear ⟨253402300799, 999999999⟩ := by
    unfold Timestamp.FourDigitYear
    decide +kernel
  refine ⟨⟨read, records_survive_storage.2 Json stored paused read ⟨start, nofun⟩⟩,
    records_survive_storage.1 full ⟨?_, .inr (by decide), ?_⟩ ⟨start, ?_⟩⟩
  · unfold Entries.Sorted
    decide
  · rintro t ⟨⟩
    exact .inl (by decide)
  · rintro t ⟨⟩
    exact finish

end BlockScript
