import BlockScript.Error
import BlockScript.Json.Syntax
import BlockScript.Proofs.DocumentGrammar
/-!
What is checked of a document, in order, and where.

A block has an agenda: what it says of itself, then its inputs, its values, its mutations and the
block that follows. A connection on the agenda is checked together with all that is plugged into
it. Carried out from the root, agendas make one list of checks, each at the end of a path of
steps into the document.
-/

namespace BlockScript

namespace Path

/-- The place that some steps lead to. -/
def along (p : Path) (steps : List Step) : Path :=
  { p with steps := p.steps ++ steps }

@[simp] theorem along_nil (p : Path) : p.along [] = p := by
  simp [along]

theorem along_cons (p : Path) (s : Step) (steps : List Step) :
    p.along (s :: steps) = (p.down s).along steps := by
  simp [along, down]

theorem along_singleton (p : Path) (s : Step) : p.along [s] = p.down s := rfl

/-- The text of a place is that of the place it is reached from, with the text of each step. -/
theorem text_along (p : Path) (steps : List Step) :
    (p.along steps).text = p.text ++ String.join (steps.map Step.text) := by
  induction steps generalizing p with
  | nil => simp [along, String.join]
  | cons s steps ih =>
    have down : (p.down s).text = p.text ++ s.text := by simp [Path.down, Path.text]
    rw [along_cons, ih, down, List.map_cons, String.append_assoc]
    congr 1
    apply String.ext
    simp

end Path

/-- Where an error is, if it has a place. -/
def ParseError.path? : ParseError → Option Path
  | .unknownKind _ path => some path
  | .malformed path _ => some path
  | _ => none

namespace Json

def isString : Json → Bool
  | .string _ => true
  | _ => false

def isArray : Json → Bool
  | .array _ => true
  | _ => false

def isObject : Json → Bool
  | .object _ => true
  | _ => false

/-- Every object in the tree has its members in order of name. -/
inductive Ordered : Json → Prop
  | null : Ordered .null
  | bool (b : Bool) : Ordered (.bool b)
  | number (n : Number) : Ordered (.number n)
  | string (s : String) : Ordered (.string s)
  | array {items : List Json} (inside : ∀ j ∈ items, Ordered j) : Ordered (.array items)
  | object {es : List (String × Json)} (sorted : Entries.Sorted es)
      (inside : ∀ e ∈ es, Ordered e.2) : Ordered (.object es)

theorem Ordered.item {items : List Json} (h : (Json.array items).Ordered) {j : Json}
    (mem : j ∈ items) : j.Ordered := by
  cases h with
  | array inside => exact inside j mem

theorem Ordered.entry {es : List (String × Json)} (h : (Json.object es).Ordered) {e : String × Json}
    (mem : e ∈ es) : e.2.Ordered := by
  cases h with
  | object _ inside => exact inside e mem

theorem Ordered.member? {name : String} {j v : Json} (h : j.Ordered)
    (found : j.member? name = some v) : v.Ordered := by
  obtain ⟨es, rfl, mem⟩ := object_of_member? found
  exact h.entry mem

namespace Syntax

mutual

/-- However its members are written, a decoded object has them in order of name. -/
theorem ordered_json? : (s : Syntax) → {j : Json} → s.json? = some j → j.Ordered
  | .null, _, h => by
    cases h
    exact .null
  | .bool b, _, h => by
    cases h
    exact .bool b
  | .number _, _, h => by
    obtain ⟨n, -, rfl⟩ := Option.map_eq_some_iff.mp h
    exact .number n
  | .string _, _, h => by
    obtain ⟨text, -, rfl⟩ := Option.map_eq_some_iff.mp h
    exact .string text
  | .array items, _, h => by
    obtain ⟨js, read, rfl⟩ := Option.map_eq_some_iff.mp h
    exact .array (ordered_jsonItems items read)
  | .object members, _, h => by
    obtain ⟨es, read, rfl⟩ := Option.map_eq_some_iff.mp h
    refine .object (Entries.Sorted.putAll .nil es) ?_
    intro e mem
    exact ordered_jsonMembers members read e (Entries.mem_ofList mem)

theorem ordered_jsonItems : (items : List Syntax) → {js : List Json} →
    json?.jsonItems items = some js → ∀ j ∈ js, j.Ordered
  | [], _, h => by
    cases h
    exact fun _ mem => absurd mem List.not_mem_nil
  | s :: rest, _, h => by
    rw [json?.jsonItems] at h
    split at h
    · next j js first others =>
      cases h
      exact List.forall_mem_cons.mpr ⟨ordered_json? s first, ordered_jsonItems rest others⟩
    · cases h

theorem ordered_jsonMembers : (members : List (StringToken × Syntax)) →
    {es : List (String × Json)} → json?.jsonMembers members = some es → ∀ e ∈ es, e.2.Ordered
  | [], _, h => by
    cases h
    exact fun _ mem => absurd mem List.not_mem_nil
  | (_, s) :: rest, _, h => by
    rw [json?.jsonMembers] at h
    split at h
    · next n j es _ first others =>
      cases h
      exact List.forall_mem_cons.mpr ⟨ordered_json? s first, ordered_jsonMembers rest others⟩
    · cases h

end

end Syntax

theorem ordered_of_ofNestedText? {text : String} {j : Json} (h : ofNestedText? text = some j) :
    j.Ordered := by
  obtain ⟨s, -, decoded⟩ := Option.bind_eq_some_iff.mp h
  exact s.ordered_json? decoded

end Json

namespace Document

/-- What a place in a document holds. -/
inductive Place where
  | block (node : Json)
  | connection (c : Json)
  | mutation (item : Json)

/-- Where steps lead from a root node. One step goes to a connection or to a mutation; what is
plugged into a connection is in the same place. -/
inductive Access (root : Json) : List Step → Place → Prop
  | root : Access root [] (.block root)
  | slot {steps : List Step} {node : Json} {key name : String} {slots : List (String × Json)}
      {c : Json} (from_block : Access root steps (.block node))
      (key_eq : key = "inputs" ∨ key = "values") (given : node.given? key = some (.object slots))
      (mem : (name, c) ∈ slots) : Access root (steps ++ [.slot key name]) (.connection c)
  | next {steps : List Step} {node c : Json} (from_block : Access root steps (.block node))
      (given : node.given? "next" = some c) : Access root (steps ++ [.next]) (.connection c)
  | mutation {steps : List Step} {node : Json} {items : List Json} {index : Nat} {item : Json}
      (from_block : Access root steps (.block node))
      (given : node.given? "mutations" = some (.array items))
      (found : items[index]? = some item) :
      Access root (steps ++ [.mutation index]) (.mutation item)
  | plugged {steps : List Step} {c inner : Json}
      (from_connection : Access root steps (.connection c)) (plugged : plug? c = some inner) :
      Access root steps (.block inner)

def Place.json : Place → Json
  | .block node => node
  | .connection c => c
  | .mutation item => item

theorem Access.ordered {root : Json} {steps : List Step} {place : Place}
    (h : Access root steps place) (ordered : root.Ordered) : place.json.Ordered := by
  induction h with
  | root => exact ordered
  | slot _ _ given mem ih => exact (ih.member? (Json.member?_of_given? given)).entry mem
  | next _ given ih => exact ih.member? (Json.member?_of_given? given)
  | mutation _ given found ih =>
    exact (ih.member? (Json.member?_of_given? given)).item (List.mem_of_getElem? found)
  | plugged _ plugged ih =>
    obtain ⟨name, member⟩ := member?_of_plug? plugged
    exact ih.member? member

theorem RootOf.ordered {document node : Json} (root : RootOf document node)
    (ordered : document.Ordered) : node.Ordered := by
  cases root with
  | block => exact ordered
  | listed _ blocks => exact (ordered.member? blocks).item (List.mem_singleton_self node)
  | workspace _ blocks items =>
    exact ((ordered.member? blocks).member? items).item (List.mem_singleton_self node)

/-- What is asked of a node where a block should be. -/
inductive BlockCheck where
  | isObject
  | hasType
  | hasKnownKind
  | id
  | fields
  /-- The shape of a section of connections. -/
  | slots (key : String)
  /-- The shape of the mutations. -/
  | mutations

/-- What is asked of an item where a mutation should be. -/
inductive MutationCheck where
  | isObject
  | domain
  | name

inductive Check where
  | block (node : Json) (check : BlockCheck)
  | connection (c : Json)
  | mutation (item : Json) (check : MutationCheck)

/-- A fault, unless what is there has the right shape. -/
def misshapen (shape : Json → Bool) (fault : ParseError) (j : Json) : Option ParseError :=
  if shape j then none else some fault

/-- The fault that a check of a block finds. A member that is null counts as missing. -/
def BlockCheck.fault? {β : Type} (registry : Registry β) (path : Path) (node : Json) :
    BlockCheck → Option ParseError
  | .isObject => misshapen Json.isObject (.malformed path .notABlock) node
  | .hasType =>
    match node.member? "type" with
    | none => some (.malformed path .typeMissing)
    | some j => misshapen Json.isString (.malformed path .typeNotAString) j
  | .hasKnownKind =>
    match node.member? "type" with
    | some (.string kind) => if registry.contains kind then none else some (.unknownKind kind path)
    | _ => none
  | .id => (node.given? "id").bind (misshapen Json.isString (.malformed path .idNotAString))
  | .fields =>
    (node.given? "fields").bind (misshapen Json.isObject (.malformed path .fieldsNotAnObject))
  | .slots key =>
    (node.given? key).bind (misshapen Json.isObject (.malformed path (.sectionNotAnObject key)))
  | .mutations =>
    (node.given? "mutations").bind (misshapen Json.isArray (.malformed path .mutationsNotAnArray))

/-- The fault that a check of a mutation finds. -/
def MutationCheck.fault? (path : Path) (item : Json) : MutationCheck → Option ParseError
  | .isObject => misshapen Json.isObject (.malformed path .notAMutation) item
  | .domain =>
    (item.given? "domain").bind (misshapen Json.isString (.malformed path .domainNotAString))
  | .name =>
    match item.member? "name" with
    | some (.string _) => none
    | _ => some (.malformed path .mutationUnnamed)

namespace Check

def fault? {β : Type} (registry : Registry β) (path : Path) : Check → Option ParseError
  | .block node check => check.fault? registry path node
  | .connection c => misshapen Json.isObject (.malformed path .notAConnection) c
  | .mutation item check => check.fault? path item

def place : Check → Place
  | .block node _ => .block node
  | .connection c => .connection c
  | .mutation item _ => .mutation item

end Check

/-- A check, and the steps that lead to where it is made. -/
structure Visit where
  steps : List Step
  check : Check

namespace Visit

/-- The fault found there, when the steps start from a path. -/
def fault? {β : Type} (registry : Registry β) (path : Path) (v : Visit) : Option ParseError :=
  v.check.fault? registry (path.along v.steps)

/-- The same visit, seen from further up. -/
def under (steps : List Step) (v : Visit) : Visit :=
  { v with steps := steps ++ v.steps }

end Visit

/-- What is to be done at a block. -/
inductive Task where
  | check (visit : Visit)
  /-- A connection, with all that is plugged into it. -/
  | follow (step : Step) (c : Json)

namespace Agenda

/-- A check of the block itself. -/
def own (node : Json) (check : BlockCheck) : Task :=
  .check ⟨[], .block node check⟩

/-- The connections in the slots of a section. -/
def slots (node : Json) (key : String) : List Task :=
  match node.given? key with
  | some (.object slots) => slots.map fun e => .follow (.slot key e.1) e.2
  | _ => []

/-- The checks of one mutation. -/
def mutation (index : Nat) (item : Json) : List Task :=
  [MutationCheck.isObject, .domain, .name].map fun check =>
    .check ⟨[.mutation index], .mutation item check⟩

def mutations (node : Json) : List Task :=
  match node.given? "mutations" with
  | some (.array items) => items.zipIdx.flatMap fun x => mutation x.2 x.1
  | _ => []

def next (node : Json) : List Task :=
  ((node.given? "next").map (Task.follow .next)).toList

end Agenda

/-- All that is to be done at a block, in order. -/
def agenda (node : Json) : List Task :=
  [.isObject, .hasType, .hasKnownKind, .id, .fields].map (Agenda.own node) ++
  Agenda.own node (.slots "inputs") :: Agenda.slots node "inputs" ++
  Agenda.own node (.slots "values") :: Agenda.slots node "values" ++
  Agenda.own node .mutations :: Agenda.mutations node ++
  Agenda.next node

theorem follow_mem_slots {node c : Json} {key : String} {step : Step}
    (mem : .follow step c ∈ Agenda.slots node key) :
    ∃ slots name, node.given? key = some (.object slots) ∧ (name, c) ∈ slots ∧
      step = .slot key name := by
  unfold Agenda.slots at mem
  split at mem
  · next slots given =>
    obtain ⟨⟨name, d⟩, found, eq⟩ := List.mem_map.mp mem
    cases eq
    exact ⟨slots, name, given, found, rfl⟩
  · cases mem

theorem follow_not_mem_mutations {node c : Json} {step : Step} :
    .follow step c ∉ Agenda.mutations node := by
  intro mem
  unfold Agenda.mutations at mem
  split at mem
  · obtain ⟨x, -, inside⟩ := List.mem_flatMap.mp mem
    obtain ⟨check, -, eq⟩ := List.mem_map.mp inside
    cases eq
  · cases mem

/-- The connections on the agenda of a block, and the steps to them. -/
theorem follow_mem_agenda {node c : Json} {step : Step} (mem : .follow step c ∈ agenda node) :
    (∃ key slots name, (key = "inputs" ∨ key = "values") ∧
      node.given? key = some (.object slots) ∧ (name, c) ∈ slots ∧ step = .slot key name) ∨
    (node.given? "next" = some c ∧ step = .next) := by
  simp only [agenda, Agenda.own, Agenda.next, List.mem_append, List.mem_cons, List.map_cons,
    List.map_nil, List.not_mem_nil, or_false, false_or, reduceCtorEq,
    follow_not_mem_mutations, Option.mem_toList] at mem
  obtain (inputs | values) | next := mem
  · obtain ⟨slots, name, facts⟩ := follow_mem_slots inputs
    exact .inl ⟨"inputs", slots, name, .inl rfl, facts⟩
  · obtain ⟨slots, name, facts⟩ := follow_mem_slots values
    exact .inl ⟨"values", slots, name, .inr rfl, facts⟩
  · obtain ⟨d, given, eq⟩ := Option.map_eq_some_iff.mp next
    cases eq
    exact .inr ⟨given, rfl⟩

theorem connects_of_follow {node c : Json} {step : Step} (mem : .follow step c ∈ agenda node) :
    Connects node c := by
  obtain ⟨key, slots, name, key_eq, given, found, -⟩ | ⟨given, -⟩ := follow_mem_agenda mem
  · exact .slot key_eq given found
  · exact .next given

theorem sizeOf_plug? {c inner : Json} (h : plug? c = some inner) : sizeOf inner < sizeOf c := by
  obtain ⟨name, member⟩ := member?_of_plug? h
  exact Json.sizeOf_member? member

/-- All visits that checking a node comes to, in order. -/
def traversal (node : Json) : List Visit :=
  (agenda node).attach.flatMap fun task =>
    match task with
    | ⟨.check visit, _⟩ => [visit]
    | ⟨.follow step c, _mem⟩ =>
      ⟨[step], .connection c⟩ ::
        match _plugged : plug? c with
        | none => []
        | some inner => (traversal inner).map (Visit.under [step])
termination_by sizeOf node
decreasing_by
  have inside := sizeOf_plug? _plugged
  have outside := (connects_of_follow _mem).sizeOf_lt
  omega

/-- The visits of a connection: itself, and then the node that is plugged into it. -/
def connectionVisits (c : Json) : List Visit :=
  ⟨[], .connection c⟩ :: (plug? c).elim [] traversal

/-- The visits of one task. -/
def Task.visits : Task → List Visit
  | .check visit => [visit]
  | .follow step c => (connectionVisits c).map (Visit.under [step])

theorem traversal_eq (node : Json) : traversal node = (agenda node).flatMap Task.visits := by
  have tasks (f : {t // t ∈ agenda node} → List Visit) (each : ∀ t, f t = t.1.visits) :
      (agenda node).attach.flatMap f = (agenda node).flatMap Task.visits := by
    rw [funext each]
    simp
  rw [traversal]
  apply tasks
  rintro ⟨task, mem⟩
  cases task with
  | check visit => rfl
  | follow step c =>
    simp only [Task.visits, connectionVisits, List.map_cons]
    cases plug? c <;> rfl

theorem Access.trans {root node : Json} {lead steps : List Step} {place : Place}
    (first : Access root lead (.block node)) (rest : Access node steps place) :
    Access root (lead ++ steps) place := by
  induction rest with
  | root => simpa using first
  | slot _ key_eq given mem ih =>
    rw [← List.append_assoc]
    exact .slot ih key_eq given mem
  | next _ given ih =>
    rw [← List.append_assoc]
    exact .next ih given
  | mutation _ given found ih =>
    rw [← List.append_assoc]
    exact .mutation ih given found
  | plugged _ plugged ih => exact .plugged ih plugged

/-- The step on an agenda leads to the connection it is for. -/
theorem access_of_follow {node c : Json} {step : Step} (mem : .follow step c ∈ agenda node) :
    Access node [step] (.connection c) := by
  obtain ⟨key, slots, name, key_eq, given, found, rfl⟩ | ⟨given, rfl⟩ := follow_mem_agenda mem
  · exact .slot .root key_eq given found
  · exact .next .root given

/-- A check on an agenda is one of the block itself or of one of its mutations. -/
theorem access_of_check {node : Json} {visit : Visit} (mem : .check visit ∈ agenda node) :
    Access node visit.steps visit.check.place := by
  have slots (key : String) : .check visit ∉ Agenda.slots node key := by
    intro mem
    unfold Agenda.slots at mem
    split at mem
    · simp at mem
    · cases mem
  have own {check : BlockCheck} (eq : .check visit = Agenda.own node check) :
      Access node visit.steps visit.check.place := by
    cases eq
    exact .root
  simp only [agenda, Agenda.next, List.mem_append, List.mem_cons, List.map_cons, List.map_nil,
    List.not_mem_nil, or_false, slots, Option.mem_toList, Option.map_eq_some_iff, reduceCtorEq,
    and_false, exists_false] at mem
  obtain (((eq | eq | eq | eq | eq) | eq) | eq) | eq | mem := mem
  case inr.inr =>
    unfold Agenda.mutations at mem
    split at mem
    · next items given =>
      obtain ⟨⟨item, index⟩, found, inside⟩ := List.mem_flatMap.mp mem
      obtain ⟨check, -, eq⟩ := List.mem_map.mp inside
      cases eq
      exact .mutation .root given (List.mem_zipIdx_iff_getElem?.mp found)
    · cases mem
  all_goals exact own eq

/-- Every visit is made at a place of the document, at the end of its steps. -/
theorem access_of_mem {node : Json} {v : Visit} (mem : v ∈ traversal node) :
    Access node v.steps v.check.place := by
  induction node using plugged_induction generalizing v with
  | step node ih =>
    rw [traversal_eq] at mem
    obtain ⟨task, listed, mem⟩ := List.mem_flatMap.mp mem
    cases task with
    | check visit =>
      obtain rfl := List.mem_singleton.mp mem
      exact access_of_check listed
    | follow step c =>
      obtain ⟨u, visited, rfl⟩ := List.mem_map.mp mem
      have there := access_of_follow listed
      obtain rfl | further := List.mem_cons.mp visited
      · exact there
      · cases plugged : plug? c with
        | none =>
          rw [plugged] at further
          cases further
        | some inner =>
          rw [plugged] at further
          have inside := ih c inner (connects_of_follow listed) plugged further
          exact (Access.plugged there plugged).trans inside

end Document

end BlockScript
