import BlockScript.Proofs.CheckOrder
import BlockScript.Proofs.DocumentReading
/-!
A document that cannot be read is refused for its first fault, at the place of that fault.

Reading a node fails exactly as the visits of its traversal do, taken in order: what is read of a
block fails with what is first on its agenda to fail, and a connection with what is plugged into it.
-/

namespace BlockScript.Document

variable {β : Type} {registry : Registry β} {path : Path}

section
variable {ε α γ : Type}

/-- The error of what fails. -/
def failure? : Except ε α → Option ε
  | .ok _ => none
  | .error e => some e

theorem failure?_eq_some_iff {x : Except ε α} {e : ε} : failure? x = some e ↔ x = .error e := by
  cases x <;> simp [failure?]

theorem failure?_eq_none_iff {x : Except ε α} : failure? x = none ↔ ∃ a, x = .ok a := by
  cases x <;> simp [failure?]

/-- A sequence fails with its first part, or else as what follows that does. -/
theorem failure?_bind {x : Except ε α} {f : α → Except ε γ} {later : Option ε}
    (rest : ∀ a, x = .ok a → failure? (f a) = later) :
    failure? (x >>= f) = (failure? x).or later := by
  cases x with
  | ok a => exact rest a rfl
  | error e => rfl

theorem failure?_bind_ok (x : Except ε α) (f : α → γ) :
    failure? (x >>= fun a => .ok (f a)) = failure? x := by
  cases x <;> rfl

theorem failure?_map (f : α → γ) (x : Except ε α) : failure? (x.map f) = failure? x := by
  cases x <;> rfl

end

/-- The first fault that some visits find. -/
def firstFault (registry : Registry β) (path : Path) (visits : List Visit) : Option ParseError :=
  visits.findSome? (Visit.fault? registry path)

theorem firstFault_append (visits more : List Visit) :
    firstFault registry path (visits ++ more) =
      (firstFault registry path visits).or (firstFault registry path more) :=
  List.findSome?_append

theorem firstFault_cons (v : Visit) (visits : List Visit) :
    firstFault registry path (v :: visits) =
      (v.fault? registry path).or (firstFault registry path visits) := by
  unfold firstFault
  rw [List.findSome?_cons]
  cases v.fault? registry path <;> rfl

@[simp] theorem firstFault_nil : firstFault registry path [] = none := rfl

/-- Seen from further up, the same faults are found further down. -/
theorem firstFault_under (step : Step) (visits : List Visit) :
    firstFault registry path (visits.map (Visit.under [step])) =
      firstFault registry (path.down step) visits := by
  have each (v : Visit) :
      (v.under [step]).fault? registry path = v.fault? registry (path.down step) := by
    simp only [Visit.fault?, Visit.under, List.singleton_append, Path.along_cons]
  unfold firstFault
  rw [List.findSome?_map]
  exact congrArg (List.findSome? · visits) (funext each)

/-- The first fault that some tasks come upon. -/
def taskFault (registry : Registry β) (path : Path) (tasks : List Task) : Option ParseError :=
  firstFault registry path (tasks.flatMap Task.visits)

theorem taskFault_append (tasks more : List Task) :
    taskFault registry path (tasks ++ more) =
      (taskFault registry path tasks).or (taskFault registry path more) := by
  rw [taskFault, List.flatMap_append, firstFault_append]
  rfl

theorem taskFault_cons (t : Task) (tasks : List Task) :
    taskFault registry path (t :: tasks) =
      (firstFault registry path t.visits).or (taskFault registry path tasks) := by
  rw [taskFault, List.flatMap_cons, firstFault_append]
  rfl

@[simp] theorem taskFault_nil : taskFault registry path [] = none := rfl

theorem firstFault_own (node : Json) (check : BlockCheck) :
    firstFault registry path (Agenda.own node check).visits = check.fault? registry path node := by
  simp only [Agenda.own, Task.visits, firstFault_cons, firstFault_nil, Option.or_none,
    Visit.fault?, Path.along_nil, Check.fault?]

theorem readKind_failure (es : Entries Json) :
    failure? (readKind registry path es) =
      (BlockCheck.hasType.fault? registry path (.object es)).or
        (BlockCheck.hasKnownKind.fault? registry path (.object es)) := by
  simp only [readKind, BlockCheck.fault?, Json.member?]
  cases Entries.value? "type" es with
  | none => rfl
  | some j =>
    cases j with
    | string kind =>
      cases known : registry.behavior? kind with
      | none => simp [failure?, misshapen, Json.isString, Registry.contains, known]
      | some behavior => simp [failure?, misshapen, Json.isString, Registry.contains, known]
    | null | bool | number | array | object => rfl

/-- A member that is missing or null is not checked. -/
theorem given?_object (name : String) (es : Entries Json) :
    (Json.object es).given? name = (Entries.value? name es).filter fun v => !v.isNull := rfl

theorem readId_failure (registry : Registry β) (es : Entries Json) :
    failure? (readId path es) = BlockCheck.id.fault? registry path (.object es) := by
  simp only [readId, BlockCheck.fault?, given?_object]
  cases Entries.value? "id" es with
  | none => rfl
  | some j => cases j <;> rfl

theorem readFields_failure (registry : Registry β) (es : Entries Json) :
    failure? (readFields path es) = BlockCheck.fields.fault? registry path (.object es) := by
  simp only [readFields, BlockCheck.fault?, given?_object]
  cases Entries.value? "fields" es with
  | none => rfl
  | some j => cases j <;> rfl

theorem readMutation_failure (item : Json) :
    failure? (readMutation path item) = (MutationCheck.isObject.fault? path item).or
      ((MutationCheck.domain.fault? path item).or (MutationCheck.name.fault? path item)) := by
  cases item with
  | object es =>
    rw [readMutation]
    change _ = (MutationCheck.domain.fault? path (.object es)).or _
    simp only [MutationCheck.fault?.eq_2, MutationCheck.fault?.eq_3, given?_object, Json.member?]
    generalize Entries.value? "name" es = name
    cases Entries.value? "domain" es with
    | none =>
      cases name with
      | none => rfl
      | some n => cases n <;> rfl
    | some j =>
      cases j with
      | null | string =>
        cases name with
        | none => rfl
        | some n => cases n <;> rfl
      | bool | number | array | object => rfl
  | null | bool | number | string | array => rfl

/-- The checks of a mutation, one step down. -/
theorem taskFault_mutation (index : Nat) (item : Json) :
    taskFault registry path (Agenda.mutation index item) =
      failure? (readMutation (path.down (.mutation index)) item) := by
  rw [readMutation_failure]
  simp only [Agenda.mutation, List.map_cons, List.map_nil, taskFault_cons, taskFault_nil,
    Task.visits, firstFault_cons, firstFault_nil, Option.or_none, Visit.fault?,
    Path.along_singleton, Check.fault?]

theorem readMutationItems_failure (index : Nat) (items : List Json) :
    failure? (readMutationItems path index items) =
      taskFault registry path ((items.zipIdx index).flatMap fun x => Agenda.mutation x.2 x.1) := by
  induction items generalizing index with
  | nil => rfl
  | cons item items ih =>
    rw [readMutationItems, List.zipIdx_cons, List.flatMap_cons, taskFault_append,
      taskFault_mutation, ← ih]
    apply failure?_bind
    intro m _
    exact failure?_bind_ok _ _

theorem readMutations_failure (registry : Registry β) (es : Entries Json) :
    failure? (readMutations path es) =
      (BlockCheck.mutations.fault? registry path (.object es)).or
        (taskFault registry path (Agenda.mutations (.object es))) := by
  simp only [readMutations, BlockCheck.fault?, Agenda.mutations, given?_object]
  cases Entries.value? "mutations" es with
  | none => rfl
  | some j =>
    cases j with
    | array items => exact (failure?_bind_ok _ _).trans (readMutationItems_failure 0 items)
    | null | bool | number | string | object => rfl

/-- Reading a node fails as its visits do, wherever it stands. -/
def Faithful (registry : Registry β) (node : Json) : Prop :=
  ∀ path, failure? (block registry path node) = firstFault registry path (traversal node)

theorem plugged_failure (name : String) (es : List (String × Json)) :
    failure? (plugged registry path name es) =
      ((Json.object es).given? name).bind fun node => failure? (block registry path node) := by
  rw [given?_object]
  induction es with
  | nil => rfl
  | cons e rest ih =>
    obtain ⟨k, v⟩ := e
    rw [plugged, Entries.value?_cons]
    split
    · cases null : v.isNull with
      | true => simp [Option.filter, null, failure?]
      | false => simp [Option.filter, null, failure?_map]
    · exact ih

/-- A connection fails by its own shape, or as what is plugged into it. -/
theorem connection_failure {c : Json}
    (inside : ∀ inner, plug? c = some inner → Faithful registry inner) :
    failure? (connection registry path c) = firstFault registry path (connectionVisits c) := by
  rw [connectionVisits, firstFault_cons, Visit.fault?, Path.along_nil]
  cases c with
  | object members =>
    rw [connection, plugged_failure, given?_plugName]
    cases plugged : plug? (.object members) with
    | none => rfl
    | some inner => exact inside inner plugged path
  | null | bool | number | string | array => rfl

theorem firstFault_follow (step : Step) (c : Json) :
    firstFault registry path (Task.follow step c).visits =
      firstFault registry (path.down step) (connectionVisits c) :=
  firstFault_under step (connectionVisits c)

theorem slotEntries_failure {key : String} {slots : List (String × Json)}
    (inside : ∀ e ∈ slots, ∀ inner, plug? e.2 = some inner → Faithful registry inner) :
    failure? (slotEntries registry path key slots) =
      taskFault registry path (slots.map fun e => .follow (.slot key e.1) e.2) := by
  induction slots with
  | nil => rfl
  | cons e rest ih =>
    obtain ⟨slot, c⟩ := e
    obtain ⟨first, others⟩ := List.forall_mem_cons.mp inside
    rw [slotEntries, List.map_cons, taskFault_cons, firstFault_follow,
      ← connection_failure first, ← ih others]
    apply failure?_bind
    intro x _
    cases x with
    | none => exact failure?_bind_ok _ _
    | some b => exact failure?_bind_ok _ _

/-- A section fails by its own shape, or as the first of its connections that does. -/
theorem sectionOf_failure {key : String} (key_eq : key = "inputs" ∨ key = "values")
    {es : List (String × Json)}
    (inside : ∀ c inner, Connects (.object es) c → plug? c = some inner →
      Faithful registry inner) :
    failure? (sectionOf registry path key es) =
      ((BlockCheck.slots key).fault? registry path (.object es)).or
        (taskFault registry path (Agenda.slots (.object es) key)) := by
  have found : sectionOf registry path key es =
      ((Entries.value? key es).map (slots registry path key)).getD (.ok []) := by
    clear inside
    induction es with
    | nil => rfl
    | cons e rest ih =>
      obtain ⟨k, v⟩ := e
      rw [sectionOf, Entries.value?_cons]
      split
      · rfl
      · exact ih
  rw [found]
  cases given : Entries.value? key es with
  | none =>
    simp only [BlockCheck.fault?, Agenda.slots, given?_object, given]
    rfl
  | some j =>
    cases j with
    | object slots =>
      have given' : (Json.object es).given? key = some (.object slots) :=
        Json.given?_eq_some_iff.mpr ⟨given, by simp⟩
      simp only [BlockCheck.fault?, Agenda.slots, given']
      exact slotEntries_failure fun e mem inner => inside e.2 inner (.slot key_eq given' mem)
    | null | bool | number | string | array =>
      simp only [BlockCheck.fault?, Agenda.slots, given?_object, given]
      rfl

theorem nextOf_failure {es : List (String × Json)}
    (inside : ∀ c inner, Connects (.object es) c → plug? c = some inner →
      Faithful registry inner) :
    failure? (nextOf registry path es) = taskFault registry path (Agenda.next (.object es)) := by
  have found : failure? (nextOf registry path es) = ((Json.object es).given? "next").bind
      fun c => failure? (connection registry (path.down .next) c) := by
    clear inside
    rw [given?_object]
    induction es with
    | nil => rfl
    | cons e rest ih =>
      obtain ⟨k, v⟩ := e
      rw [nextOf, Entries.value?_cons]
      split
      · cases v <;> rfl
      · exact ih
  rw [found, Agenda.next]
  cases given : (Json.object es).given? "next" with
  | none => rfl
  | some c =>
    have read : failure? (connection registry (path.down .next) c) = _ :=
      connection_failure fun inner => inside c inner (.next given)
    simp only [Option.bind_some, Option.map_some, Option.toList_some, taskFault_cons, taskFault_nil,
      Option.or_none, firstFault_follow, read]

/-- Reading a block fails with the first fault on its agenda. -/
theorem block_faithful (node : Json) : Faithful registry node := by
  induction node using plugged_induction with
  | step node ih =>
    intro path
    rw [traversal_eq]
    change _ = taskFault registry path (agenda node)
    simp only [agenda, List.map_cons, List.map_nil, taskFault_append, taskFault_cons, taskFault_nil,
      firstFault_own, Option.or_none]
    cases node with
    | object es =>
      have object : BlockCheck.isObject.fault? registry path (.object es) = none := rfl
      calc failure? (block registry path (.object es))
          = (failure? (readKind registry path es)).or ((failure? (readId path es)).or
              ((failure? (readFields path es)).or
                ((failure? (sectionOf registry path "inputs" es)).or
                  ((failure? (sectionOf registry path "values" es)).or
                    ((failure? (readMutations path es)).or
                      (failure? (nextOf registry path es))))))) := by
            rw [block]
            apply failure?_bind
            rintro ⟨kind, behavior⟩ -
            apply failure?_bind
            intro id _
            apply failure?_bind
            intro fields _
            apply failure?_bind
            intro inputs _
            apply failure?_bind
            intro values _
            apply failure?_bind
            intro mutations _
            exact failure?_bind_ok _ _
        _ = _ := by
            rw [readKind_failure, readId_failure registry, readFields_failure registry,
              sectionOf_failure (.inl rfl) ih, sectionOf_failure (.inr rfl) ih,
              readMutations_failure registry, nextOf_failure ih, object, Option.none_or]
            simp only [Option.or_assoc]
    | null | bool | number | string | array => rfl

theorem traversal_sound_iff {node : Json} :
    firstFault registry path (traversal node) = none ↔ ValidBlock registry node := by
  rw [← block_faithful node path, failure?_eq_none_iff]
  constructor
  · rintro ⟨b, ok⟩
    exact validBlock_of_block_ok ok
  · intro valid
    exact valid.block_ok path

/-- A document with a root node is refused as that node is. -/
theorem build_failure {document root : Json} (rooted : rootNode document = .ok (root, path)) :
    failure? (build registry document) = firstFault registry path (traversal root) := by
  rw [← block_faithful root path, build, rooted]
  rfl

/-- What a visit can find: that something is malformed, or that a block is of an unknown kind. -/
theorem Visit.fault?_cases {v : Visit} {e : ParseError} (found : v.fault? registry path = some e) :
    (∃ fault, e = .malformed (path.along v.steps) fault) ∨
    ∃ node kind, v.check.place = .block node ∧ node.member? "type" = some (.string kind) ∧
      registry.contains kind = false ∧ e = .unknownKind kind (path.along v.steps) := by
  obtain ⟨steps, check⟩ := v
  have shaped {shape : Json → Bool} {fault : Malformation} {j : Json}
      (h : misshapen shape (.malformed (path.along steps) fault) j = some e) :
      ∃ fault, e = .malformed (path.along steps) fault := by
    unfold misshapen at h
    split at h
    · cases h
    · cases h
      exact ⟨fault, rfl⟩
  have given {name : String} {node : Json} {shape : Json → Bool} {fault : Malformation}
      (h : (node.given? name).bind (misshapen shape (.malformed (path.along steps) fault)) =
        some e) : ∃ fault, e = .malformed (path.along steps) fault := by
    obtain ⟨j, -, h⟩ := Option.bind_eq_some_iff.mp h
    exact shaped h
  cases check with
  | block node check =>
    cases check with
    | isObject => exact .inl (shaped found)
    | hasType =>
      simp only [Visit.fault?, Check.fault?, BlockCheck.fault?] at found
      split at found
      · cases found
        exact .inl ⟨_, rfl⟩
      · exact .inl (shaped found)
    | hasKnownKind =>
      simp only [Visit.fault?, Check.fault?, BlockCheck.fault?] at found
      split at found
      · next kind typed =>
        split at found
        · cases found
        · next unknown =>
          cases found
          exact .inr ⟨node, kind, rfl, typed, Bool.not_eq_true _ ▸ unknown, rfl⟩
      · cases found
    | id | fields | slots | mutations => exact .inl (given found)
  | connection c => exact .inl (shaped found)
  | mutation item check =>
    cases check with
    | isObject => exact .inl (shaped found)
    | domain => exact .inl (given found)
    | name =>
      simp only [Visit.fault?, Check.fault?, MutationCheck.fault?] at found
      split at found
      · cases found
      · cases found
        exact .inl ⟨_, rfl⟩

theorem Visit.path?_of_fault? {v : Visit} {e : ParseError}
    (found : v.fault? registry path = some e) : e.path? = some (path.along v.steps) := by
  obtain ⟨fault, rfl⟩ | ⟨node, kind, -, -, -, rfl⟩ := v.fault?_cases found
  · rfl
  · rfl

/-- The first of the visits from a root that finds a fault, and the visits before it. -/
structure FirstFault (registry : Registry β) (root : Json) (path : Path) (e : ParseError)
    (before : List Visit) (visit : Visit) : Prop where
  order : ∃ after, traversal root = before ++ visit :: after
  sound : ∀ v ∈ before, v.fault? registry path = none
  fault : visit.fault? registry path = some e

theorem firstFault_eq_some_iff {root : Json} {e : ParseError} :
    firstFault registry path (traversal root) = some e ↔
      ∃ before visit, FirstFault registry root path e before visit := by
  rw [firstFault, List.findSome?_eq_some_iff]
  constructor
  · rintro ⟨before, visit, after, order, fault, sound⟩
    exact ⟨before, visit, ⟨after, order⟩, sound, fault⟩
  · rintro ⟨before, visit, ⟨after, order⟩, sound, fault⟩
    exact ⟨before, visit, after, order, fault, sound⟩

namespace FirstFault

variable {root : Json} {e : ParseError} {before : List Visit} {visit : Visit}
  (h : FirstFault registry root path e before visit)
include h

theorem access : Access root visit.steps visit.check.place := by
  obtain ⟨after, order⟩ := h.order
  apply access_of_mem
  simp [order]

/-- A node whose visits have all been made without a fault is a valid block. -/
theorem validBlock {lead : List Step} {node : Json}
    (passed : (traversal node).map (Visit.under lead) <:+: before) : ValidBlock registry node := by
  have faultless : firstFault registry (path.along lead) (traversal node) = none := by
    apply List.findSome?_eq_none_iff.mpr
    intro v mem
    have sound := h.sound _ (passed.subset (List.mem_map_of_mem mem))
    simpa [Visit.fault?, Visit.under, Path.along] using sound
  exact traversal_sound_iff.mp faultless

end FirstFault

/-- A document that has a root node is refused exactly for the first fault that the visits from the
root find. That fault is found in a connection, a block or a mutation that the document has, at the
end of the steps that the reported path adds to that of the root; every node visited completely
before is a valid block. Only a block of that very kind is reported to be of an unknown one.
Sections are visited in the order of their members, which in a document read from a text is that of
their names. -/
theorem first_fault_is_reported {β : Type} (registry : Registry β) {document root : Json}
    {path : Path} (rooted : rootNode document = .ok (root, path)) :
    (∀ e, build registry document = .error e ↔
      ∃ before visit, FirstFault registry root path e before visit) ∧
    (∀ e before visit, FirstFault registry root path e before visit →
      Access root visit.steps visit.check.place ∧
      e.path? = some (path.along visit.steps) ∧
      (path.along visit.steps).text = path.text ++ String.join (visit.steps.map Step.text) ∧
      ∀ lead node, (traversal node).map (Visit.under lead) <:+: before →
        ValidBlock registry node) ∧
    (∀ kind there, build registry document = .error (.unknownKind kind there) →
      ∃ steps node, there = path.along steps ∧ Access root steps (.block node) ∧
        node.member? "type" = some (.string kind) ∧ registry.contains kind = false) ∧
    ∀ text, Json.ofNestedText? text = some document → ∀ steps node key slots,
      Access root steps (.block node) → node.given? key = some (.object slots) →
        Entries.Sorted slots := by
  have refused (e : ParseError) : build registry document = .error e ↔
      ∃ before visit, FirstFault registry root path e before visit := by
    rw [← failure?_eq_some_iff, build_failure rooted, firstFault_eq_some_iff]
  refine ⟨refused, ?_, ?_, ?_⟩
  · intro e before visit first
    exact ⟨first.access, visit.path?_of_fault? first.fault, path.text_along visit.steps,
      fun lead node => first.validBlock⟩
  · intro kind there failed
    obtain ⟨before, visit, first⟩ := (refused _).mp failed
    have access := first.access
    obtain ⟨fault, eq⟩ | ⟨node, kind, place, typed, unknown, eq⟩ := visit.fault?_cases first.fault
    · cases eq
    · cases eq
      rw [place] at access
      exact ⟨visit.steps, node, rfl, access, typed, unknown⟩
  · intro text decoded steps node key slots access given
    have rootOf := rootNode_ok_iff.mp ⟨path, rooted⟩
    have ordered := rootOf.ordered (Json.ordered_of_ofNestedText? decoded)
    have inside := (access.ordered ordered).member? (Json.member?_of_given? given)
    cases inside with
    | object sorted => exact sorted

/-- A workspace with several faults: a block of an unknown kind behind a shadow in the first slot,
values that are no object, a mutation without a name. The unknown kind is reported. -/
theorem unknown_kind_behind_a_shadow :
    let odd : Json := .object [("type", .string "mystery")]
    let shadow : Json :=
      .object [("next", .object [("block", odd)]), ("type", .string "logic_null")]
    let node : Json := .object [
      ("inputs", .object [
        ("A", .object [("block", .null), ("shadow", shadow)]), ("B", .number (.nat 3))]),
      ("mutations", .array [.object []]), ("type", .string "logic_compare"), ("values", .bool true)]
    let document : Json := .object [("blocks", .object [("blocks", .array [node])])]
    let path : Path := { base := "$.blocks.blocks[0]" }
    let there := path.along [.slot "inputs" "A", .next]
    rootNode document = .ok (node, path) ∧
    build Registry.standard document = .error (.unknownKind "mystery" there) ∧
    there.text = "$.blocks.blocks[0].inputs.A.next" ∧
    (∃ before visit, FirstFault Registry.standard node path (.unknownKind "mystery" there) before
      visit) ∧
    ∃ steps inner, there = path.along steps ∧ Access node steps (.block inner) ∧
      inner.member? "type" = some (.string "mystery") := by
  intro odd shadow node document path there
  have rooted : rootNode document = .ok (node, path) := rfl
  have failed : build Registry.standard document = .error (.unknownKind "mystery" there) := rfl
  obtain ⟨refused, -, unknown, -⟩ := first_fault_is_reported Registry.standard rooted
  obtain ⟨steps, inner, eq, access, typed, -⟩ := unknown "mystery" there failed
  exact ⟨rooted, failed, by decide, (refused _).mp failed, steps, inner, eq, access, typed⟩

end BlockScript.Document
