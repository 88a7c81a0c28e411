import Mathlib.Data.List.Forall2
import BlockScript.Proofs.Replaying
/-!
Replaying whatever is stored.

What is stored need not be what a run attached: kinds may be unknown to the catalog, and states may
not describe a modifier. With a catalog of stock modifiers, replaying is a fold over what is stored
that stops at the first attachment of either sort, and until then it only adds to the decoration.
-/

namespace BlockScript

open Log

namespace Json

/-- There is one member of the name, and this is its value. -/
def Sole (members : List (String × Json)) (name : String) (value : Json) : Prop :=
  (members.filter fun m => m.1 == name) = [(name, value)]

/-- The parts of a record as it is stored: an object that names each part once, or an array of the
parts in order. -/
inductive Parts (names : List String) : Json → List Json → Prop
  | named {members : List (String × Json)} {values : List Json}
      (soles : List.Forall₂ (Sole members) names values) : Parts names (.object members) values
  | listed {values : List Json} (length : values.length = names.length) :
      Parts names (.array values) values

theorem unique?_eq_some_iff {members : List (String × Json)} {name : String} {value : Json} :
    Node.unique? name members = some (some value) ↔ Sole members name value := by
  have named : ∀ m ∈ members.filter fun m => m.1 == name, m.1 = name := by
    intro m mem
    simpa using (List.mem_filter.mp mem).2
  unfold Node.unique? Sole
  split
  · next none => simp [none]
  · next m one =>
    rw [one] at named ⊢
    obtain ⟨n, v⟩ := m
    have eq : n = name := named (n, v) List.mem_cons_self
    simp [eq]
  · next none one =>
    simp only [reduceCtorEq, false_iff]
    intro sole
    exact one _ sole

theorem mapM_unique?_iff {members : List (String × Json)} {names : List String}
    {values : List Json} :
    (names.mapM fun n => Node.unique? n members) = some (values.map some) ↔
      List.Forall₂ (Sole members) names values := by
  induction names generalizing values with
  | nil => cases values <;> simp
  | cons name names ih =>
    simp only [List.mapM_cons, Option.bind_eq_bind, Option.bind_eq_some_iff, Option.pure_def,
      Option.some.injEq, List.forall₂_cons_left_iff]
    constructor
    · rintro ⟨first, found, rest, others, eq⟩
      cases values with
      | nil => cases eq
      | cons value values =>
        obtain ⟨rfl, rfl⟩ := List.cons.inj eq
        exact ⟨value, values, unique?_eq_some_iff.mp found, ih.mp others, rfl⟩
    · rintro ⟨value, values, sole, others, rfl⟩
      exact ⟨some value, unique?_eq_some_iff.mpr sole, values.map some, ih.mpr others, rfl⟩

/-- All fields of a record are found just when its parts are there. -/
theorem fields?_eq_some_iff {names : List String} {state : Json} {values : List Json} :
    Node.fields? names state = some (values.map some) ↔ Parts names state values := by
  cases state with
  | object members =>
    refine Iff.trans mapM_unique?_iff ⟨.named, ?_⟩
    rintro ⟨soles⟩
    exact soles
  | array items =>
    have fields : Node.fields? names (array items) =
        if items.length ≤ names.length then
          some (items.map some ++ List.replicate (names.length - items.length) none)
        else none := rfl
    rw [fields]
    constructor
    · intro found
      rw [Option.ite_none_right_eq_some] at found
      obtain ⟨fits, eq⟩ := found
      rw [Option.some.injEq] at eq
      have none_left : names.length - items.length = 0 := by
        by_contra some_left
        have mem : none ∈ values.map some := by
          rw [← eq]
          simp [some_left]
        simp at mem
      rw [none_left, List.replicate_zero, List.append_nil] at eq
      obtain rfl : items = values := (List.map_inj_right fun _ _ => Option.some.inj).mp eq
      exact .listed (by omega)
    · intro parts
      cases parts with
      | listed length => simp [length]
  | null | bool | number | string =>
    refine iff_of_false (by simp [Node.fields?, Node.members?, Node.items?]) ?_
    rintro ⟨⟩

end Json

namespace Log

/-- The modifier that a stored state describes. -/
inductive Attachment.Describes : Attachment → Modifier → Prop
  | tag {state : Json} {key : String} {value : Json}
      (parts : Json.Parts ["key", "value"] state [.string key, value]) :
      Describes ⟨"tag", state⟩ (.tag key value)
  | childScript {state : Json} {id : String} (parts : Json.Parts ["child_id"] state [.string id]) :
      Describes ⟨"child-script", state⟩ (.childScript id)

namespace Modifier

open Json

theorem required_string?_iff {part : Option Json} {s : String} :
    Node.required Node.string? part = some s ↔ part = some (.string s) := by
  rcases part with _ | _ | _ | _ | _ | _ | _ <;>
    simp [Node.required, Node.string?, Json.asString?]

theorem required_json?_iff {part : Option Json} {j : Json} :
    Node.required Node.json? part = some j ↔ part = some j := by
  cases part <;> simp [Node.required, Node.json?]

theorem readTag_iff {state : Json} {m : Modifier} :
    readTag state = some m ↔
      ∃ key value, Parts ["key", "value"] state [.string key, value] ∧ m = .tag key value := by
  simp only [← fields?_eq_some_iff, readTag, Option.bind_eq_bind, Option.bind_eq_some_iff]
  constructor
  · rintro ⟨fields, found, read⟩
    split at read
    · next keyed valued =>
      simp only [Option.bind_eq_some_iff, required_string?_iff, required_json?_iff,
        Option.pure_def, Option.some.injEq] at read
      obtain ⟨key, rfl, value, rfl, rfl⟩ := read
      exact ⟨key, value, found, rfl⟩
    · cases read
  · rintro ⟨key, value, found, rfl⟩
    exact ⟨_, found, rfl⟩

theorem readChildScript_iff {state : Json} {m : Modifier} :
    readChildScript state = some m ↔
      ∃ id, Parts ["child_id"] state [.string id] ∧ m = .childScript id := by
  simp only [← fields?_eq_some_iff, readChildScript, Option.bind_eq_bind, Option.bind_eq_some_iff]
  constructor
  · rintro ⟨fields, found, read⟩
    split at read
    · next named =>
      simp only [Option.bind_eq_some_iff, required_string?_iff, Option.pure_def,
        Option.some.injEq] at read
      obtain ⟨id, rfl, rfl⟩ := read
      exact ⟨id, found, rfl⟩
    · cases read
  · rintro ⟨id, found, rfl⟩
    exact ⟨_, found, rfl⟩

/-- A stock modifier never fails. -/
theorem Stocked.apply_eq {m : Modifier} (stocked : m.Stocked) (initial : Bool) (r : LogRecord) :
    m.apply initial r = (.ok (), (m.apply initial r).2) := by
  obtain ⟨key, value, rfl⟩ | ⟨id, rfl⟩ := stocked <;> rfl

end Modifier

namespace Attachment

theorem describes_iff {a : Attachment} {m : Modifier} :
    a.Describes m ↔
      (a.kind = "tag" ∧ ∃ key value,
        Json.Parts ["key", "value"] a.state [.string key, value] ∧ m = .tag key value) ∨
      a.kind = "child-script" ∧ ∃ id,
        Json.Parts ["child_id"] a.state [.string id] ∧ m = .childScript id := by
  constructor
  · intro described
    cases described with
    | tag parts => exact .inl ⟨rfl, _, _, parts, rfl⟩
    | childScript parts => exact .inr ⟨rfl, _, parts, rfl⟩
  · obtain ⟨kind, state⟩ := a
    rintro (⟨rfl, key, value, parts, rfl⟩ | ⟨rfl, id, parts, rfl⟩)
    · exact .tag parts
    · exact .childScript parts

theorem Describes.stocked {a : Attachment} {m : Modifier} (h : a.Describes m) : m.Stocked := by
  cases h with
  | tag => exact .inl ⟨_, _, rfl⟩
  | childScript => exact .inr ⟨_, rfl⟩

end Attachment

namespace Catalog

/-- A catalog that knows some of the stock modifiers, and no others. -/
def Stocked (c : Catalog) : Prop :=
  ∀ e ∈ c, e ∈ standard

/-- An attachment that can be replayed: the catalog knows its kind, and its state describes a
modifier. -/
def Replays (c : Catalog) (a : Attachment) : Prop :=
  a.kind ∈ Entries.names c ∧ ∃ m, a.Describes m

/-- Why an attachment cannot be replayed. -/
inductive Refuses (c : Catalog) (a : Attachment) : ModifierError → Prop
  | unknownKind (unknown : a.kind ∉ Entries.names c) : Refuses c a (.unknownKind a.kind)
  | invalidState (known : a.kind ∈ Entries.names c) (undescribed : ∀ m, ¬a.Describes m) :
      Refuses c a (.invalidState a.kind)

theorem replays_or_refuses (c : Catalog) (a : Attachment) : c.Replays a ∨ ∃ e, c.Refuses a e := by
  by_cases known : a.kind ∈ Entries.names c
  · by_cases described : ∃ m, a.Describes m
    · exact .inl ⟨known, described⟩
    · exact .inr ⟨_, .invalidState known (not_exists.mp described)⟩
  · exact .inr ⟨_, .unknownKind known⟩

section
variable {c : Catalog} (stocked : c.Stocked) {a : Attachment}
include stocked

/-- A catalog of stock modifiers reads exactly the states that describe one. -/
theorem Stocked.read_iff {read : Json → Option Modifier}
    (found : Entries.value? a.kind c = some read) {m : Modifier} :
    read a.state = some m ↔ a.Describes m := by
  have entry : (a.kind, read) ∈ [("child-script", Modifier.readChildScript),
      ("tag", Modifier.readTag)] := stocked _ (Entries.mem_of_value? found)
  simp only [List.mem_cons, Prod.mk.injEq, List.not_mem_nil, or_false] at entry
  rw [Attachment.describes_iff]
  obtain ⟨kind, rfl⟩ | ⟨kind, rfl⟩ := entry
  · simp [kind, Modifier.readChildScript_iff]
  · simp [kind, Modifier.readTag_iff]

/-- What can be replayed is replayed as the modifier it describes. -/
theorem Stocked.replayOne_of_describes (known : a.kind ∈ Entries.names c) {m : Modifier}
    (described : a.Describes m) (r : LogRecord) :
    c.replayOne a r = (.ok (), (m.apply false r).2) := by
  obtain ⟨read, found⟩ := Entries.mem_names_iff.mp known
  have read_eq := (stocked.read_iff found).mpr described
  simp only [replayOne, found, read_eq]
  exact described.stocked.apply_eq false r

/-- What cannot be replayed leaves the record as it is. -/
theorem Stocked.replayOne_of_refuses {e : ModifierError} (refused : c.Refuses a e)
    (r : LogRecord) : c.replayOne a r = (.error e, r) := by
  cases refused with
  | unknownKind unknown =>
    have missing : Entries.value? a.kind c = none := by
      rw [Option.eq_none_iff_forall_ne_some]
      intro read found
      exact unknown (Entries.mem_names_iff.mpr ⟨read, found⟩)
    simp only [replayOne, missing]
  | invalidState known undescribed =>
    obtain ⟨read, found⟩ := Entries.mem_names_iff.mp known
    have unread : read a.state = none := by
      rw [Option.eq_none_iff_forall_ne_some]
      intro m read_eq
      exact undescribed m ((stocked.read_iff found).mp read_eq)
    simp only [replayOne, found, unread]

/-- Replaying is a fold over the modifiers described. -/
theorem Stocked.replay_of_describes {as : List Attachment} {ms : List Modifier}
    (known : ∀ a ∈ as, a.kind ∈ Entries.names c)
    (described : List.Forall₂ Attachment.Describes as ms) (r : LogRecord) :
    c.replay as r = (.ok (), ms.foldl (fun r m => (m.apply false r).2) r) := by
  induction described generalizing r with
  | nil => rfl
  | cons first _ ih =>
    obtain ⟨knows, others⟩ := List.forall_mem_cons.mp known
    simp only [replay, stocked.replayOne_of_describes knows first]
    exact ih others _

theorem Stocked.replay_of_replays {as : List Attachment} (all : ∀ a ∈ as, c.Replays a)
    (r : LogRecord) : ∃ q, c.replay as r = (.ok (), q) := by
  induction as generalizing r with
  | nil => exact ⟨r, rfl⟩
  | cons a as ih =>
    obtain ⟨⟨known, m, described⟩, others⟩ := List.forall_mem_cons.mp all
    simp only [replay, stocked.replayOne_of_describes known described]
    exact ih others _

/-- At an attachment that cannot be replayed, replaying stops with what came before it. -/
theorem Stocked.replay_of_refuses {before : List Attachment} {e : ModifierError}
    (all : ∀ b ∈ before, c.Replays b) (refused : c.Refuses a e) (after : List Attachment)
    (r : LogRecord) :
    c.replay (before ++ a :: after) r = (.error e, (c.replay before r).2) := by
  obtain ⟨q, replayed⟩ := stocked.replay_of_replays all r
  rw [replay_append_of_ok replayed, replayed]
  simp only [replay, stocked.replayOne_of_refuses refused]

end

theorem replay_append_of_error {c : Catalog} {as : List Attachment} {r q : LogRecord}
    {e : ModifierError} (stopped : c.replay as r = (.error e, q)) (bs : List Attachment) :
    c.replay (as ++ bs) r = (.error e, q) := by
  induction as generalizing r with
  | nil => cases stopped
  | cons a as ih =>
    simp only [List.cons_append, replay] at stopped ⊢
    rcases one : c.replayOne a r with ⟨result, u⟩
    rw [one] at stopped
    cases result with
    | error e => exact stopped
    | ok _ => exact ih stopped

/-- Either all attachments can be replayed, or there is a first one that cannot. -/
theorem first_refused (c : Catalog) (as : List Attachment) :
    (∀ a ∈ as, c.Replays a) ∨ ∃ before a after e, as = before ++ a :: after ∧
      (∀ b ∈ before, c.Replays b) ∧ c.Refuses a e := by
  induction as with
  | nil => exact .inl (by simp)
  | cons a as ih =>
    obtain replays | ⟨e, refused⟩ := c.replays_or_refuses a
    · obtain all | ⟨before, b, after, e, rfl, all, refused⟩ := ih
      · exact .inl (List.forall_mem_cons.mpr ⟨replays, all⟩)
      · exact .inr ⟨a :: before, b, after, e, rfl, List.forall_mem_cons.mpr ⟨replays, all⟩, refused⟩
    · exact .inr ⟨[], a, as, e, rfl, by simp, refused⟩

end Catalog

end Log

namespace LogRecord

/-- A record with more decoration, and otherwise the same. What was annotated still is, and what was
linked comes first. -/
structure Gains (r q : LogRecord) : Prop where
  rest : q = { r with annotations := q.annotations, children := q.children }
  annotations : ∀ key ∈ Entries.names r.annotations, key ∈ Entries.names q.annotations
  children : r.children <+: q.children

namespace Gains

theorem refl (r : LogRecord) : r.Gains r :=
  ⟨rfl, fun _ mem => mem, List.prefix_refl _⟩

theorem trans {r q p : LogRecord} (first : r.Gains q) (second : q.Gains p) : r.Gains p where
  rest := by
    rw [second.rest, first.rest]
  annotations key mem := second.annotations key (first.annotations key mem)
  children := first.children.trans second.children

end Gains

theorem gains_annotate (r : LogRecord) (key : String) (value : Json) :
    r.Gains (r.annotate key value) where
  rest := rfl
  annotations name mem := by
    obtain ⟨v, found⟩ := Entries.mem_names_iff.mp mem
    rw [Entries.mem_names_iff, annotate, Entries.value?_put]
    split
    · exact ⟨value, rfl⟩
    · exact ⟨v, found⟩
  children := List.prefix_refl _

theorem gains_linkChild (r : LogRecord) (id : String) : r.Gains (r.linkChild id) := by
  unfold linkChild
  split
  · exact .refl r
  · exact ⟨rfl, fun _ mem => mem, List.prefix_append _ _⟩

end LogRecord

namespace Log

theorem Modifier.Stocked.gains {m : Modifier} (stocked : m.Stocked) (initial : Bool)
    (r : LogRecord) : r.Gains (m.apply initial r).2 := by
  obtain ⟨key, value, rfl⟩ | ⟨id, rfl⟩ := stocked
  · exact r.gains_annotate key value
  · exact r.gains_linkChild id

namespace Catalog

theorem Stocked.gains_replay {c : Catalog} (stocked : c.Stocked) (as : List Attachment)
    (r : LogRecord) : r.Gains (c.replay as r).2 := by
  induction as generalizing r with
  | nil => exact .refl r
  | cons a as ih =>
    rw [replay]
    obtain ⟨known, m, described⟩ | ⟨e, refused⟩ := c.replays_or_refuses a
    · rw [stocked.replayOne_of_describes known described]
      exact (described.stocked.gains false r).trans (ih _)
    · rw [stocked.replayOne_of_refuses refused]
      exact .refl r

/-- Replaying whatever is stored, with a catalog of some of the stock modifiers. It succeeds just
when the catalog knows every kind and every state describes a modifier, and is then a fold over
these modifiers. Otherwise the first attachment of which this is not so says what the error is, and
what is left is what the attachments before it made. Attachments that come after others are replayed
on what these left, if they could be. All the while the record gains decoration, and nothing else
about it changes. -/
theorem replay_stops_at_first_refusal {c : Catalog} (stocked : c.Stocked) (as : List Attachment)
    (r : LogRecord) :
    ((c.replay as r).1 = .ok () ↔ ∀ a ∈ as, c.Replays a) ∧
    (∀ ms, (∀ a ∈ as, a.kind ∈ Entries.names c) → List.Forall₂ Attachment.Describes as ms →
      c.replay as r = (.ok (), ms.foldl (fun r m => (m.apply false r).2) r)) ∧
    (∀ e, (c.replay as r).1 = .error e ↔ ∃ before a after, as = before ++ a :: after ∧
      (∀ b ∈ before, c.Replays b) ∧ c.Refuses a e) ∧
    (∀ before a after, as = before ++ a :: after → (∀ b ∈ before, c.Replays b) →
      ¬c.Replays a → (c.replay as r).2 = (c.replay before r).2) ∧
    (∀ bs q, c.replay as r = (.ok (), q) → c.replay (as ++ bs) r = c.replay bs q) ∧
    (∀ bs e q, c.replay as r = (.error e, q) → c.replay (as ++ bs) r = (.error e, q)) ∧
    r.Gains (c.replay as r).2 := by
  refine ⟨⟨?_, ?_⟩, fun ms known described => stocked.replay_of_describes known described r,
    fun e => ⟨?_, ?_⟩, ?_, fun bs q replayed => replay_append_of_ok replayed bs,
    fun bs e q stopped => replay_append_of_error stopped bs, stocked.gains_replay as r⟩
  · intro ok
    obtain all | ⟨before, a, after, e, rfl, all, refused⟩ := c.first_refused as
    · exact all
    · rw [stocked.replay_of_refuses all refused] at ok
      cases ok
  · intro all
    obtain ⟨q, replayed⟩ := stocked.replay_of_replays all r
    rw [replayed]
  · intro stopped
    obtain all | ⟨before, a, after, e, rfl, all, refused⟩ := c.first_refused as
    · obtain ⟨q, replayed⟩ := stocked.replay_of_replays all r
      rw [replayed] at stopped
      cases stopped
    · rw [stocked.replay_of_refuses all refused] at stopped
      cases stopped
      exact ⟨before, a, after, rfl, all, refused⟩
  · rintro ⟨before, a, after, rfl, all, refused⟩
    rw [stocked.replay_of_refuses all refused]
  · rintro before a after rfl all fails
    obtain replays | ⟨e, refused⟩ := c.replays_or_refuses a
    · exact absurd replays fails
    · rw [stocked.replay_of_refuses all refused]

/-- A catalog that knows tags only. On a finished record it puts two tags, one in the place of
another, and stops at the child that comes next. -/
theorem tagged_until_a_child :
    let tags : Catalog := [("tag", Modifier.readTag)]
    let before : List Attachment := [⟨"tag", .array [.string "k", .null]⟩,
      ⟨"tag", .object [("key", .string "l"), ("more", .null), ("value", .bool true)]⟩]
    let child : Attachment := ⟨"child-script", .object [("child_id", .string "d")]⟩
    let r : LogRecord := { LogRecord.start none none "u" ⟨0, 0⟩ with
      result := .success, finished := some ⟨1, 0⟩, children := ["c"],
      annotations := [("k", .string "old")] }
    tags.Stocked ∧
    tags.replay (before ++ [child, child]) r = (.error (.unknownKind "child-script"),
      { r with annotations := [("k", .null), ("l", .bool true)] }) ∧
    (∃ first a rest, before ++ [child, child] = first ++ a :: rest ∧
      (∀ b ∈ first, tags.Replays b) ∧ tags.Refuses a (.unknownKind "child-script")) ∧
    (∀ a ∈ before, tags.Replays a) ∧
    r.Gains (tags.replay (before ++ [child, child]) r).2 := by
  intro tags before child r
  have stocked : tags.Stocked := by
    simp only [Stocked, tags, List.forall_mem_singleton]
    exact List.mem_cons_of_mem _ List.mem_cons_self
  obtain ⟨-, -, stops, -, -, -, gains⟩ :=
    replay_stops_at_first_refusal stocked (before ++ [child, child]) r
  obtain ⟨succeeds, -⟩ := replay_stops_at_first_refusal stocked before r
  exact ⟨stocked, rfl, (stops _).mp rfl, succeeds.mp rfl, gains⟩

end Catalog

end Log

end BlockScript
