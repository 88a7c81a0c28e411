import Mathlib.Data.List.Forall2
import BlockScript.Json.Basic
import BlockScript.Proofs.EntryMaps
import BlockScript.Registry
/-!
The grammar of documents, and the trees they stand for.

Both are said of decoded documents and without reference to how these are read. A member that is
null counts as missing. A block is valid when its own members have the right shape and all that is
plugged into its connections is valid again, whether or not it ends up in the tree. A document
stands for at most one tree.
-/

namespace BlockScript

namespace Json

/-- The member under a name, unless it is null. -/
def given? (name : String) (j : Json) : Option Json :=
  (j.member? name).filter fun v => !v.isNull

/-- No object in the tree has two members of one name. -/
inductive UniqueKeys : Json → Prop
  | null : UniqueKeys .null
  | bool (b : Bool) : UniqueKeys (.bool b)
  | number (n : Number) : UniqueKeys (.number n)
  | string (s : String) : UniqueKeys (.string s)
  | array {items : List Json} (inside : ∀ j ∈ items, UniqueKeys j) : UniqueKeys (.array items)
  | object {es : List (String × Json)} (names : (Entries.names es).Nodup)
      (inside : ∀ e ∈ es, UniqueKeys e.2) : UniqueKeys (.object es)

attribute [simp] UniqueKeys.null UniqueKeys.bool UniqueKeys.number UniqueKeys.string

@[simp] theorem uniqueKeys_array_iff {items : List Json} :
    (array items).UniqueKeys ↔ ∀ j ∈ items, j.UniqueKeys := by
  constructor
  · intro h
    cases h with
    | array inside => exact inside
  · exact .array

@[simp] theorem uniqueKeys_object_iff {es : List (String × Json)} :
    (object es).UniqueKeys ↔ (Entries.names es).Nodup ∧ ∀ e ∈ es, e.2.UniqueKeys := by
  constructor
  · intro h
    cases h with
    | object names inside => exact ⟨names, inside⟩
  · rintro ⟨names, inside⟩
    exact .object names inside

theorem given?_eq_some_iff {name : String} {j v : Json} :
    j.given? name = some v ↔ j.member? name = some v ∧ v ≠ .null := by
  have isNull : v.isNull = false ↔ v ≠ .null := by cases v <;> simp [Json.isNull]
  simp [given?, Option.filter_eq_some_iff, isNull]

theorem given?_eq_none_iff {name : String} {j : Json} :
    j.given? name = none ↔ j.member? name = none ∨ j.member? name = some .null := by
  cases member : j.member? name with
  | none => simp [given?, member]
  | some v => cases v <;> simp [given?, member, isNull]

theorem member?_of_given? {name : String} {j v : Json} (h : j.given? name = some v) :
    j.member? name = some v :=
  (given?_eq_some_iff.mp h).1

theorem object_of_member? {name : String} {j v : Json} (h : j.member? name = some v) :
    ∃ es, j = .object es ∧ (name, v) ∈ es := by
  cases j with
  | object es => exact ⟨es, rfl, Entries.mem_of_value? h⟩
  | null | bool | number | string | array => cases h

theorem depth_le_of_mem {es : List (String × Json)} {e : String × Json} (mem : e ∈ es) :
    e.2.depth ≤ depth.depthEntries es := by
  induction es with
  | nil => cases mem
  | cons f es ih =>
    rw [depth.depthEntries]
    obtain rfl | mem := List.mem_cons.mp mem
    · exact Nat.le_max_left _ _
    · exact Nat.le_trans (ih mem) (Nat.le_max_right _ _)

theorem depth_member? {name : String} {j v : Json} (h : j.member? name = some v) :
    v.depth < j.depth := by
  obtain ⟨es, rfl, mem⟩ := object_of_member? h
  exact Nat.lt_succ_of_le (depth_le_of_mem mem)

theorem sizeOf_member? {name : String} {j v : Json} (h : j.member? name = some v) :
    sizeOf v < sizeOf j := by
  obtain ⟨es, rfl, mem⟩ := object_of_member? h
  have lt := List.sizeOf_lt_of_mem mem
  simp only [Prod.mk.sizeOf_spec, object.sizeOf_spec] at lt ⊢
  omega

theorem UniqueKeys.member? {name : String} {j v : Json} (unique : j.UniqueKeys)
    (h : j.member? name = some v) : v.UniqueKeys := by
  obtain ⟨es, rfl, mem⟩ := object_of_member? h
  exact (uniqueKeys_object_iff.mp unique).2 _ mem

end Json

namespace Document

/-- What an optional member means: a default when it is missing, and what is read from it
otherwise. -/
def Means {α : Type} (reads : Json → α → Prop) (default : α) : Option Json → α → Prop
  | none, x => x = default
  | some j, x => reads j x

namespace Means

variable {α : Type} {reads : Json → α → Prop} {default : α} {given : Option Json}

theorem unique (functional : ∀ j x y, reads j x → reads j y → x = y) {x y : α}
    (h : Means reads default given x) (k : Means reads default given y) : x = y := by
  cases given with
  | none => exact h.trans k.symm
  | some j => exact functional j x y h k

theorem exists_iff : (∃ x, Means reads default given x) ↔ ∀ j, given = some j → ∃ x, reads j x := by
  cases given with
  | none => simp [Means]
  | some j => simp [Means]

end Means

/-- The mutation an item describes. -/
structure MutationOf (item : Json) (m : Mutation) : Prop where
  name : item.member? "name" = some (.string m.name)
  domain : Means (fun j d => j = .string d) Mutation.defaultDomain (item.given? "domain") m.domain
  value : m.value = (item.member? "value").getD .null

theorem MutationOf.unique {item : Json} {m n : Mutation} (h : MutationOf item m)
    (k : MutationOf item n) : m = n := by
  have name : m.name = n.name := by simpa using h.name.symm.trans k.name
  have domain : m.domain = n.domain := by
    refine h.domain.unique ?_ k.domain
    rintro j x y rfl eq
    simpa using eq
  have value : m.value = n.value := h.value.trans k.value.symm
  cases m
  cases n
  simp_all

/-- The mutations in the extra state: its entries, or the state as a whole if it has none. -/
inductive ExtraOf : Json → List Mutation → Prop
  | entries (state : List (String × Json)) :
      ExtraOf (.object state) (state.map fun e => ⟨Mutation.defaultDomain, e.1, e.2⟩)
  | whole {j : Json} (other : ∀ state, j ≠ .object state) :
      ExtraOf j [⟨Mutation.defaultDomain, "extraState", j⟩]

theorem ExtraOf.unique {j : Json} {ms ns : List Mutation} (h : ExtraOf j ms) (k : ExtraOf j ns) :
    ms = ns := by
  cases h with
  | entries state =>
    cases k with
    | entries => rfl
    | whole other => exact absurd rfl (other state)
  | whole other =>
    cases k with
    | entries state => exact absurd rfl (other state)
    | whole => rfl

theorem ExtraOf.exists (j : Json) : ∃ ms, ExtraOf j ms := by
  by_cases object : ∃ state, j = .object state
  · obtain ⟨state, rfl⟩ := object
    exact ⟨_, .entries state⟩
  · exact ⟨_, .whole fun state eq => object ⟨state, eq⟩⟩

section

variable {β : Type}

/-- What a node says of its block, the connections aside. -/
structure HeaderOf (registry : Registry β) (node : Json) (h : Header β) : Prop where
  kind : node.member? "type" = some (.string h.kind)
  behavior : registry.behavior? h.kind = some h.behavior
  id : Means (fun j id => ∃ s, j = .string s ∧ id = some s) none (node.given? "id") h.id
  fields : Means (fun j fields => j = .object fields) [] (node.given? "fields") h.fields
  /-- The listed mutations come first, in order. -/
  mutations : ∃ listed extra,
    Means (fun j ms => ∃ items, j = .array items ∧ List.Forall₂ MutationOf items ms) []
      (node.given? "mutations") listed ∧
    Means ExtraOf [] (node.given? "extraState") extra ∧
    h.mutations = listed ++ extra

theorem HeaderOf.unique {registry : Registry β} {node : Json} {h k : Header β}
    (one : HeaderOf registry node h) (two : HeaderOf registry node k) : h = k := by
  have kind : h.kind = k.kind := by simpa using one.kind.symm.trans two.kind
  have behavior : h.behavior = k.behavior := by
    have same := one.behavior
    rw [kind, two.behavior] at same
    simpa using same.symm
  have id : h.id = k.id := by
    refine one.id.unique ?_ two.id
    rintro j x y ⟨s, rfl, rfl⟩ ⟨t, eq, rfl⟩
    simpa using eq
  have fields : h.fields = k.fields := by
    refine one.fields.unique ?_ two.fields
    rintro j x y rfl eq
    simpa using eq
  have mutations : h.mutations = k.mutations := by
    obtain ⟨listed, extra, reading, state, eq⟩ := one.mutations
    obtain ⟨listed', extra', reading', state', eq'⟩ := two.mutations
    have first : listed = listed' := by
      refine reading.unique ?_ reading'
      rintro j ms ns ⟨items, rfl, all⟩ ⟨items', eq, all'⟩
      cases eq
      have functional : Relator.RightUnique MutationOf := fun _ _ _ => MutationOf.unique
      exact List.right_unique_forall₂' functional all all'
    have second : extra = extra' := by
      refine state.unique ?_ state'
      intro j ms ns
      exact ExtraOf.unique
    rw [eq, eq', first, second]
  cases h
  cases k
  simp_all

/-- The node plugged into a connection: the block if there is one, otherwise the shadow. -/
def plug? (connection : Json) : Option Json :=
  (connection.given? "block").or (connection.given? "shadow")

/-- The node plugged into a slot of a section. -/
def slotNode? (key slot : String) (node : Json) : Option Json :=
  ((node.member? key).bind (Json.member? slot)).bind plug?

/-- The node plugged into a slot, where a value goes before an input. -/
def inputNode? (slot : String) (node : Json) : Option Json :=
  (slotNode? "values" slot node).or (slotNode? "inputs" slot node)

/-- The node that follows. -/
def nextNode? (node : Json) : Option Json :=
  (node.member? "next").bind plug?

/-- The connections of a node: the entries of its two sections, and the one to what follows. -/
inductive Connects (node : Json) : Json → Prop
  | slot {key name : String} {slots : List (String × Json)} {connection : Json}
      (key_eq : key = "inputs" ∨ key = "values") (given : node.given? key = some (.object slots))
      (mem : (name, connection) ∈ slots) : Connects node connection
  | next {connection : Json} (given : node.given? "next" = some connection) :
      Connects node connection

def ValidMutation (item : Json) : Prop :=
  (∃ name, item.member? "name" = some (.string name)) ∧
  ∀ j, item.given? "domain" = some j → ∃ domain, j = .string domain

/-- What the members of a block have to look like, the plugged nodes aside. -/
structure WellShaped (registry : Registry β) (node : Json) : Prop where
  kind : ∃ kind, node.member? "type" = some (.string kind) ∧ registry.contains kind
  id : ∀ j, node.given? "id" = some j → ∃ id, j = .string id
  fields : ∀ j, node.given? "fields" = some j → ∃ fields, j = .object fields
  inputs : ∀ j, node.given? "inputs" = some j → ∃ slots, j = .object slots
  values : ∀ j, node.given? "values" = some j → ∃ slots, j = .object slots
  mutations : ∀ j, node.given? "mutations" = some j →
    ∃ items, j = .array items ∧ ∀ item ∈ items, ValidMutation item
  connections : ∀ connection, Connects node connection → ∃ members, connection = .object members

/-- A valid block: everything plugged into it is valid too, also where another node goes before
it. -/
inductive ValidBlock (registry : Registry β) : Json → Prop
  | mk {node : Json} (shape : WellShaped registry node)
      (plugged : ∀ connection inner, Connects node connection → plug? connection = some inner →
        ValidBlock registry inner) :
      ValidBlock registry node

/-- The root node of a document: the document itself if it has a type, or else the only item of
its blocks, which stand in it or in a workspace. -/
inductive RootOf (document : Json) : Json → Prop
  | block {kind : Json} (type : document.member? "type" = some kind) : RootOf document document
  | listed {node : Json} (untyped : document.member? "type" = none)
      (blocks : document.member? "blocks" = some (.array [node])) : RootOf document node
  | workspace {inner node : Json} (untyped : document.member? "type" = none)
      (blocks : document.member? "blocks" = some inner)
      (items : inner.member? "blocks" = some (.array [node])) : RootOf document node

/-- The tree a node stands for. It has what the node says, a block in each slot that a node is
plugged into and in no other, and a block behind it if a node follows. -/
inductive Represents (registry : Registry β) : Json → Block β → Prop
  | mk {node : Json} {h : Header β} {inputs : Entries (Block β)} {next : Option (Block β)}
      (header : HeaderOf registry node h)
      (sorted : inputs.Sorted)
      (slots : ∀ slot, (Entries.value? slot inputs).isSome = (inputNode? slot node).isSome)
      (plugged : ∀ slot inner b, inputNode? slot node = some inner →
        Entries.value? slot inputs = some b → Represents registry inner b)
      (successor : next.isSome = (nextNode? node).isSome)
      (follows : ∀ inner b, nextNode? node = some inner → next = some b →
        Represents registry inner b) :
      Represents registry node (.mk h inputs next)

variable {registry : Registry β}

/-- Two plugged blocks are the same if they stand for one node and a node stands for one block. -/
theorem plugged_unique {node : Option Json} {x y : Option (Block β)}
    (hx : x.isSome = node.isSome) (hy : y.isSome = node.isSome)
    (same : ∀ inner b c, node = some inner → x = some b → y = some c → b = c) : x = y := by
  cases node with
  | none =>
    rw [Option.isSome_none, Option.isSome_eq_false_iff, Option.isNone_iff_eq_none] at hx hy
    rw [hx, hy]
  | some inner =>
    obtain ⟨b, rfl⟩ := Option.isSome_iff_exists.mp hx
    obtain ⟨c, rfl⟩ := Option.isSome_iff_exists.mp hy
    rw [same inner b c rfl rfl rfl]

theorem Represents.unique {node : Json} {b c : Block β} (h : Represents registry node b)
    (k : Represents registry node c) : b = c := by
  induction h generalizing c with
  | mk header sorted slots plugged successor follows ihPlugged ihFollows =>
    obtain ⟨header', sorted', slots', plugged', successor', follows'⟩ := k
    have inputs := sorted.ext sorted' fun slot =>
      plugged_unique (slots slot) (slots' slot) fun inner b c node left right =>
        ihPlugged slot inner b node left (plugged' slot inner c node right)
    have next := plugged_unique successor successor' fun inner b c node left right =>
      ihFollows inner b node left (follows' inner c node right)
    rw [header.unique header', inputs, next]

theorem member?_of_plug? {connection inner : Json} (h : plug? connection = some inner) :
    ∃ name, connection.member? name = some inner := by
  obtain given | ⟨-, given⟩ := Option.or_eq_some_iff.mp h
  · exact ⟨_, Json.member?_of_given? given⟩
  · exact ⟨_, Json.member?_of_given? given⟩

theorem Connects.sizeOf_lt {node connection : Json} (h : Connects node connection) :
    sizeOf connection < sizeOf node := by
  cases h with
  | slot _ given mem =>
    have outer := Json.sizeOf_member? (Json.member?_of_given? given)
    have lt := List.sizeOf_lt_of_mem mem
    simp only [Prod.mk.sizeOf_spec, Json.object.sizeOf_spec] at lt outer
    omega
  | next given => exact Json.sizeOf_member? (Json.member?_of_given? given)

/-- To show something of all nodes, show it of a node from the nodes plugged into it. -/
theorem plugged_induction {motive : Json → Prop}
    (step : ∀ node, (∀ connection inner, Connects node connection → plug? connection = some inner →
      motive inner) → motive node) (node : Json) : motive node := by
  induction size : sizeOf node using Nat.strongRecOn generalizing node with
  | _ n ih =>
    apply step
    intro connection inner connects plugged
    obtain ⟨name, member⟩ := member?_of_plug? plugged
    have inside := Json.sizeOf_member? member
    have outside := connects.sizeOf_lt
    exact ih (sizeOf inner) (by omega) inner rfl

/-- What is plugged into a slot is plugged into a connection of the node. -/
theorem connects_of_slotNode? {key slot : String} {node inner : Json}
    (key_eq : key = "inputs" ∨ key = "values") (h : slotNode? key slot node = some inner) :
    ∃ connection, Connects node connection ∧ plug? connection = some inner := by
  obtain ⟨connection, member, plugged⟩ := Option.bind_eq_some_iff.mp h
  obtain ⟨inputs, group, member⟩ := Option.bind_eq_some_iff.mp member
  obtain ⟨slots, rfl, mem⟩ := Json.object_of_member? member
  exact ⟨connection, .slot key_eq (Json.given?_eq_some_iff.mpr ⟨group, by simp⟩) mem, plugged⟩

theorem connects_of_inputNode? {slot : String} {node inner : Json}
    (h : inputNode? slot node = some inner) :
    ∃ connection, Connects node connection ∧ plug? connection = some inner := by
  obtain values | ⟨-, inputs⟩ := Option.or_eq_some_iff.mp h
  · exact connects_of_slotNode? (.inr rfl) values
  · exact connects_of_slotNode? (.inl rfl) inputs

theorem connects_of_nextNode? {node inner : Json} (h : nextNode? node = some inner) :
    ∃ connection, Connects node connection ∧ plug? connection = some inner := by
  obtain ⟨connection, member, plugged⟩ := Option.bind_eq_some_iff.mp h
  obtain ⟨name, inside⟩ := member?_of_plug? plugged
  obtain ⟨members, rfl, -⟩ := Json.object_of_member? inside
  exact ⟨_, .next (Json.given?_eq_some_iff.mpr ⟨member, by simp⟩), plugged⟩

theorem Connects.uniqueKeys {node connection inner : Json} (unique : node.UniqueKeys)
    (h : Connects node connection) (plugged : plug? connection = some inner) :
    inner.UniqueKeys := by
  have outer : connection.UniqueKeys := by
    cases h with
    | slot _ given mem =>
      have inside := unique.member? (Json.member?_of_given? given)
      exact (Json.uniqueKeys_object_iff.mp inside).2 _ mem
    | next given => exact unique.member? (Json.member?_of_given? given)
  obtain ⟨name, member⟩ := member?_of_plug? plugged
  exact outer.member? member

theorem RootOf.uniqueKeys {document node : Json} (unique : document.UniqueKeys)
    (root : RootOf document node) : node.UniqueKeys := by
  cases root with
  | block => exact unique
  | listed _ blocks => simpa using unique.member? blocks
  | workspace _ blocks items => simpa using (unique.member? blocks).member? items

end

end Document

end BlockScript
