import BlockScript.Proofs.RecordCodec
import BlockScript.Proofs.TextWriting
/-!
Log records that are written as text and read again.

The reader counts the arrays and objects around what it decodes. The state of a modifier stands
inside the record, the list of modifiers and the modifier itself, so what it may hold nests less
deep than a document of its own. A record is refused if one of its states nests too deep, and
otherwise read back if the numbers in its states are.
-/

namespace BlockScript

open Json

namespace Json

theorem finite_string (s : String) : (Json.string s).Finite := nofun

theorem finite_bool (b : Bool) : (Json.bool b).Finite := nofun

theorem Legible.member? {name : String} {j v : Json} (h : j.Legible)
    (found : j.member? name = some v) : v.Legible := by
  obtain ⟨es, rfl, mem⟩ := object_of_member? found
  exact legible_object.mp h _ mem

theorem Finite.member? {name : String} {j v : Json} (h : j.Finite)
    (found : j.member? name = some v) : v.Finite := by
  obtain ⟨es, rfl, mem⟩ := object_of_member? found
  exact finite_object.mp h _ mem

theorem toItems_eq_map (js : List Json) : toSyntax.toItems js = js.map toSyntax := by
  induction js with
  | nil => rfl
  | cons j js ih => rw [toSyntax.toItems, ih, List.map_cons]

namespace Source

/-- What is written of a tree, inside some arrays and objects. -/
def ofJson (level : Nat) (j : Json) : Source :=
  { level, content := j.toSyntax }

variable {level : Nat}

theorem json?_ofJson (j : Json) :
    Node.json? (ofJson level j) =
      if level + j.depth < nestingLimit then j.toSyntax.json? else none := by
  rw [← depth_toSyntax]
  rfl

theorem json?_ofJson_iff {j : Json} (ordered : j.Ordered) (finite : j.Finite) :
    Node.json? (ofJson level j) = some j ↔ level + j.depth < nestingLimit ∧ j.Legible := by
  rw [json?_ofJson, ← json?_toSyntax_iff j ordered finite]
  split
  · next shallow => exact (and_iff_right shallow).symm
  · next deep => exact ⟨nofun, fun h => absurd h.1 deep⟩

theorem readMembers_toMembers (es : List (String × Json)) :
    readMembers level (toSyntax.toMembers es) = some (es.map fun e => (e.1, ofJson level e.2)) := by
  induction es with
  | nil => rfl
  | cons e es ih =>
    obtain ⟨n, j⟩ := e
    simp only [toSyntax.toMembers, readMembers, text?_pieces, ih]
    rfl

section
variable (room : level + 1 < nestingLimit)
include room

theorem items?_ofJson (items : List Json) :
    Node.items? (ofJson level (.array items)) = some (items.map (ofJson (level + 1))) := by
  have inner : (ofJson level (.array items)).inner? = some (level + 1) := if_pos room
  change Source.items? _ = _
  simp only [Source.items?, inner]
  simp only [ofJson, toSyntax, toItems_eq_map, List.map_map]
  rfl

theorem members?_ofJson (es : List (String × Json)) :
    Node.members? (ofJson level (.object es)) =
      some (es.map fun e => (e.1, ofJson (level + 1) e.2)) := by
  have inner : (ofJson level (.object es)).inner? = some (level + 1) := if_pos room
  change Source.members? _ = _
  simp only [Source.members?, inner]
  exact readMembers_toMembers es

theorem shows_ofJson : Node.Shows (ofJson level) where
  isNull j := by cases j <;> rfl
  string s := text?_pieces s
  bool _ := rfl
  strings ss := by
    have each : ∀ s ∈ ss, (Node.string? ∘ ofJson (level + 1) ∘ Json.string) s = some (id s) :=
      fun s _ => text?_pieces s
    rw [Node.listOf, items?_ofJson room, Option.bind_some, List.map_map, List.mapM_map,
      mapM_eq_some_map each, List.map_id]

end

end Source

end Json

theorem mapM_eq_some_iff {α γ : Type} {read : γ → Option α} {write : α → γ} {xs : List α} :
    (xs.map write).mapM read = some xs ↔ ∀ x ∈ xs, read (write x) = some x := by
  induction xs with
  | nil => exact ⟨nofun, fun _ => rfl⟩
  | cons x xs ih =>
    rw [List.map_cons, List.mapM_cons, List.forall_mem_cons, ← ih]
    cases read (write x) with
    | none => exact ⟨nofun, nofun⟩
    | some y => cases (xs.map write).mapM read <;> simp

theorem mapM_eq_none_of_mem {α γ : Type} {read : γ → Option α} {ys : List γ} {y : γ} (mem : y ∈ ys)
    (refused : read y = none) : ys.mapM read = none := by
  induction ys with
  | nil => cases mem
  | cons z ys ih =>
    rw [List.mapM_cons]
    obtain rfl | mem := List.mem_cons.mp mem
    · rw [refused]
      rfl
    · rw [ih mem]
      exact Option.bind_fun_none _

namespace Log.Attachment

/-- The state of a modifier, three levels down in a record, nests less than is allowed. -/
def Shallow (a : Attachment) : Prop :=
  3 + a.state.depth < nestingLimit

/-- In the list of modifiers of a record, a modifier is read but for its state. -/
theorem read?_ofJson (a : Attachment) :
    read? (Source.ofJson 2 a.toJson) =
      (Node.json? (Source.ofJson 3 a.state)).map (⟨a.kind, ·⟩) := by
  have room : 2 + 1 < nestingLimit := by decide
  have fields : Node.fields? ["kind", "state"] (Source.ofJson 2 a.toJson) =
      some [some (.ofJson 3 (.string a.kind)), some (.ofJson 3 a.state)] :=
    Node.fields?_of_members (Source.members?_ofJson room _) (by simp [Entries.names]) _
  have kind : Node.string? (Source.ofJson 3 (.string a.kind)) = some a.kind := text?_pieces a.kind
  simp only [read?, fields, Option.bind_eq_bind, Option.bind_some, Node.required, kind]
  rw [Option.map_eq_bind]
  rfl

theorem read?_ofJson_iff {a : Attachment} (ordered : a.state.Ordered) (finite : a.state.Finite) :
    read? (Source.ofJson 2 a.toJson) = some a ↔ a.Shallow ∧ a.state.Legible := by
  rw [read?_ofJson, Shallow, ← Source.json?_ofJson_iff ordered finite, Option.map_eq_some_iff]
  constructor
  · rintro ⟨state, read, eq⟩
    rw [read, ← eq]
  · intro read
    exact ⟨a.state, read, rfl⟩

theorem read?_ofJson_deep {a : Attachment} (deep : ¬a.Shallow) :
    read? (Source.ofJson 2 a.toJson) = none := by
  rw [Shallow] at deep
  rw [read?_ofJson, Source.json?_ofJson, if_neg deep]
  rfl

end Log.Attachment

namespace LogRecord

/-- A record that can be written: its numbers are finite, and its annotations come from its
modifiers. -/
structure Storable (r : LogRecord) : Prop where
  wellFormed : r.WellFormed
  dated : r.Dated
  states : ∀ a ∈ r.modifiers, a.state.Ordered ∧ a.state.Finite
  annotated : ∀ e ∈ r.annotations, ∃ a ∈ r.modifiers, ∃ name, a.state.member? name = some e.2

variable {r : LogRecord}

/-- The modifiers as they are read where they are written. -/
def modifiersRead (r : LogRecord) : Option (List Log.Attachment) :=
  Node.defaulted [] (Node.listOf Log.Attachment.read?)
    ((if r.modifiers.isEmpty then none else
      some (.array (r.modifiers.map (·.toJson)))).map (Source.ofJson 1))

/-- The annotations as they are read where they are written. -/
def annotationsRead (r : LogRecord) : Option (Entries Json) :=
  Node.defaulted [] (Node.entriesOf Node.json?)
    ((if r.annotations.isEmpty then none else
      some (.object r.annotations)).map (Source.ofJson 1))

theorem modifiersRead_eq (r : LogRecord) :
    r.modifiersRead =
      (r.modifiers.map fun a => Source.ofJson 2 a.toJson).mapM Log.Attachment.read? := by
  have inner : 1 + 1 < nestingLimit := by decide
  have read : Node.listOf Log.Attachment.read?
      (Source.ofJson 1 (.array (r.modifiers.map (·.toJson)))) =
        (r.modifiers.map fun a => Source.ofJson 2 a.toJson).mapM Log.Attachment.read? := by
    rw [Node.listOf, Source.items?_ofJson inner, Option.bind_some, List.map_map]
    rfl
  rw [modifiersRead]
  cases empty : r.modifiers.isEmpty with
  | true =>
    rw [List.isEmpty_iff.mp empty]
    rfl
  | false => exact read

theorem Storable.modifiersRead_iff (h : r.Storable) :
    r.modifiersRead = some r.modifiers ↔ ∀ a ∈ r.modifiers, a.Shallow ∧ a.state.Legible := by
  rw [modifiersRead_eq, mapM_eq_some_iff]
  constructor
  · intro read a attached
    exact (Log.Attachment.read?_ofJson_iff (h.states a attached).1 (h.states a attached).2).mp
      (read a attached)
  · intro kept a attached
    exact (Log.Attachment.read?_ofJson_iff (h.states a attached).1 (h.states a attached).2).mpr
      (kept a attached)

theorem modifiersRead_deep {a : Log.Attachment} (attached : a ∈ r.modifiers) (deep : ¬a.Shallow) :
    r.modifiersRead = none := by
  rw [modifiersRead_eq]
  exact mapM_eq_none_of_mem (List.mem_map_of_mem attached) (Log.Attachment.read?_ofJson_deep deep)

/-- An annotation is part of a state, and one level closer to the root. -/
theorem Storable.annotationsRead_eq (h : r.Storable)
    (kept : ∀ a ∈ r.modifiers, a.Shallow ∧ a.state.Legible) :
    r.annotationsRead = some r.annotations := by
  have inner : 1 + 1 < nestingLimit := by decide
  have each : ∀ e ∈ r.annotations,
      ((Node.json? (Source.ofJson 2 e.2)).map fun v => (e.1, v)) = some (id e) := by
    intro e mem
    obtain ⟨a, attached, name, found⟩ := h.annotated e mem
    obtain ⟨ordered, finite⟩ := h.states a attached
    obtain ⟨shallow, legible⟩ := kept a attached
    have less := depth_member? found
    have room : 2 + e.2.depth < nestingLimit := by
      rw [Log.Attachment.Shallow] at shallow
      omega
    rw [(Source.json?_ofJson_iff (ordered.member? found) (finite.member? found)).mpr
      ⟨room, legible.member? found⟩]
    rfl
  have read : Node.entriesOf Node.json? (Source.ofJson 1 (.object r.annotations)) =
      some r.annotations := by
    rw [Node.entriesOf, Source.members?_ofJson inner, Option.bind_some, List.mapM_map]
    refine (congrArg (Option.map Entries.ofList) (mapM_eq_some_map each)).trans ?_
    rw [List.map_id, Option.map_some, h.wellFormed.annotations.ofList_eq]
  rw [annotationsRead]
  cases empty : List.isEmpty r.annotations with
  | true =>
    rw [List.isEmpty_iff.mp empty]
    rfl
  | false => exact read

section
variable (h : r.Storable) {members : List (String × Json)} (apart : (Entries.names members).Nodup)
  (held : ∀ field ∈ r.fieldTable, Entries.value? field.1 members = field.2)
include h apart held

/-- However the members of a record are arranged, it is read from them but for its annotations and
modifiers. -/
theorem Storable.read?_ofJson :
    read? (Source.ofJson 0 (.object members)) =
      r.annotationsRead.bind fun annotations => r.modifiersRead.bind fun modifiers =>
        some { r with annotations, modifiers } := by
  have outer : 0 + 1 < nestingLimit := by decide
  have inner : 1 + 1 < nestingLimit := by decide
  have fields := Node.fields?_shown (Source.members?_ofJson outer members) apart held
  exact read?_of_fields (Source.shows_ofJson inner) h.wellFormed h.dated fields

theorem Storable.read?_ofJson_iff :
    read? (Source.ofJson 0 (.object members)) = some r ↔
      ∀ a ∈ r.modifiers, a.Shallow ∧ a.state.Legible := by
  rw [h.read?_ofJson apart held]
  constructor
  · intro read
    obtain ⟨annotations, -, read⟩ := Option.bind_eq_some_iff.mp read
    obtain ⟨modifiers, mods, eq⟩ := Option.bind_eq_some_iff.mp read
    have same : modifiers = r.modifiers := congrArg LogRecord.modifiers (Option.some.inj eq)
    rw [same] at mods
    exact h.modifiersRead_iff.mp mods
  · intro kept
    rw [h.annotationsRead_eq kept, h.modifiersRead_iff.mpr kept]
    rfl

theorem Storable.read?_ofJson_deep {a : Log.Attachment} (attached : a ∈ r.modifiers)
    (deep : ¬a.Shallow) : read? (Source.ofJson 0 (.object members)) = none := by
  rw [h.read?_ofJson apart held, modifiersRead_deep attached deep]
  exact Option.bind_fun_none _

end

theorem Storable.finite_fields (h : r.Storable) :
    ∀ field ∈ r.fieldTable, ∀ v ∈ field.2, v.Finite := by
  have given {α : Type} {write : α → Json} {o : Option α} (all : ∀ a, (write a).Finite) :
      ∀ v ∈ o.map write, v.Finite := by
    intro v mem
    obtain ⟨a, -, rfl⟩ := Option.map_eq_some_iff.mp mem
    exact all a
  have always {j : Json} (finite : j.Finite) : ∀ v ∈ some j, v.Finite := by
    rintro v ⟨⟩
    exact finite
  have sometimes {c : Bool} {j : Json} (finite : j.Finite) :
      ∀ v ∈ if c then none else some j, v.Finite := by
    cases c with
    | true => nofun
    | false => exact always finite
  have children : (Json.array (r.children.map .string)).Finite := by
    refine finite_array.mpr fun j mem => ?_
    obtain ⟨s, -, rfl⟩ := List.mem_map.mp mem
    exact finite_string s
  have annotations : (Json.object r.annotations).Finite := by
    refine finite_object.mpr fun e mem => ?_
    obtain ⟨a, attached, name, found⟩ := h.annotated e mem
    exact (h.states a attached).2.member? found
  have modifiers : (Json.array (r.modifiers.map (·.toJson))).Finite := by
    refine finite_array.mpr fun j mem => ?_
    obtain ⟨a, attached, rfl⟩ := List.mem_map.mp mem
    refine finite_object.mpr ?_
    simp only [List.forall_mem_cons, List.not_mem_nil, false_implies, implies_true, and_true]
    exact ⟨finite_string a.kind, (h.states a attached).2⟩
  simp only [fieldTable, List.forall_mem_cons, List.not_mem_nil, false_implies, implies_true,
    and_true]
  exact ⟨given finite_string, given finite_string, always (finite_string _),
    always (finite_string _), given fun t => finite_string t.text, always (finite_string _),
    always children, given finite_bool, always (finite_string _), sometimes annotations,
    sometimes modifiers⟩

theorem Storable.finite (h : r.Storable) : ∀ e ∈ r.members, e.2.Finite := by
  intro e mem
  rw [members_eq_present] at mem
  obtain ⟨⟨name, value⟩, inside, held⟩ := List.mem_flatMap.mp mem
  cases value with
  | none => cases held
  | some v =>
    obtain rfl := List.mem_singleton.mp held
    exact h.finite_fields _ inside v rfl

/-- The texts of a record: on one line, with one field a line, or with its members in order of
name. -/
def texts (r : LogRecord) : List String :=
  [(Json.object r.members).compact, r.pretty, r.toJson.compact]

/-- Each text of a record holds its members, in some arrangement. -/
theorem Storable.ofText?_eq_read? (h : r.Storable) {text : String} (written : text ∈ r.texts) :
    ∃ members, (Entries.names members).Nodup ∧
      (∀ field ∈ r.fieldTable, Entries.value? field.1 members = field.2) ∧
      ofText? text = read? (Source.ofJson 0 (.object members)) := by
  have apart : (Entries.names r.members).Nodup := by
    rw [members_eq_present]
    exact r.fieldTable_unique.sublist (names_present_sublist r.fieldTable)
  have held := value?_present r.fieldTable_unique
  have heldInOrder := value?_ofList_present r.fieldTable_unique
  rw [← members_eq_present] at held heldInOrder
  have sorted : (Entries.ofList r.members).Sorted := Entries.Sorted.putAll .nil r.members
  have finite : (Json.object r.members).Finite := finite_object.mpr h.finite
  have finiteInOrder : r.toJson.Finite :=
    finite_object.mpr fun e mem => h.finite e (Entries.mem_ofList mem)
  have reads {members : List (String × Json)}
      (parsed : Syntax.ofText? text = some (Json.object members).toSyntax) :
      ofText? text = read? (Source.ofJson 0 (.object members)) := by
    simp only [ofText?, source?, parsed, Option.map_some, Option.bind_some]
    rfl
  simp only [texts, List.mem_cons, List.not_mem_nil, or_false] at written
  obtain rfl | rfl | rfl := written
  · exact ⟨r.members, apart, held, reads (ofText?_compact finite)⟩
  · exact ⟨r.members, apart, held, reads (ofText?_pretty finite)⟩
  · exact ⟨Entries.ofList r.members, sorted.nodup, heldInOrder,
      reads (ofText?_compact finiteInOrder)⟩

/-- A record is read back from its texts if its states nest no deeper than allowed and their numbers
read back, and only then. -/
theorem Storable.ofText?_texts_iff (h : r.Storable) {text : String} (written : text ∈ r.texts) :
    ofText? text = some r ↔ ∀ a ∈ r.modifiers, a.Shallow ∧ a.state.Legible := by
  obtain ⟨members, apart, held, read⟩ := h.ofText?_eq_read? written
  rw [read, h.read?_ofJson_iff apart held]

/-- A record with a state that nests too deep is refused. -/
theorem Storable.ofText?_texts_deep (h : r.Storable) {text : String} (written : text ∈ r.texts)
    {a : Log.Attachment} (attached : a ∈ r.modifiers) (deep : ¬a.Shallow) :
    ofText? text = none := by
  obtain ⟨members, apart, held, read⟩ := h.ofText?_eq_read? written
  rw [read, h.read?_ofJson_deep apart held attached deep]

end LogRecord

end BlockScript
