import BlockScript.Kinds
import BlockScript.Proofs.HeaderReading
/-!
Reading a document succeeds exactly on the grammar, and gives the tree the document stands for.

What is plugged in is read one connection at a time, so what holds of the block of a node follows,
by induction on what is plugged in, from what holds of the blocks of its connections.
-/

namespace BlockScript.Document

variable {β : Type} {registry : Registry β} {path : Path}

/-- The block that is read from a node, as something plugged in. -/
def Builds (registry : Registry β) (path : Path) (node : Json) (x : Option (Block β)) : Prop :=
  ∃ b, block registry path node = .ok b ∧ x = some b

theorem plugged_ok_iff {name : String} {es : List (String × Json)} {x : Option (Block β)} :
    plugged registry path name es = .ok x ↔
      Means (Builds registry path) none ((Json.object es).given? name) x := by
  rw [means_given?_iff]
  induction es with
  | nil => simp [plugged, eq_comm]
  | cons e rest ih =>
    obtain ⟨k, v⟩ := e
    rw [plugged, Entries.value?_cons]
    split
    · cases v with
      | null => simp [Json.isNull, eq_comm]
      | bool | number | string | array | object =>
        simp only [Json.isNull, Builds, Bool.false_eq_true, ↓reduceIte]
        cases block registry path _ <;> simp [Except.map, eq_comm]
    · exact ih

/-- A connection holds its block under one name, and else under the other. -/
theorem given?_plugName (members : Entries Json) :
    (Json.object members).given? (plugName members) = plug? (.object members) := by
  unfold plugName
  split
  · next missing =>
    have block : (Json.object members).given? "block" = none :=
      Json.given?_eq_none_iff.mpr (.inl missing)
    rw [plug?, block, Option.none_or]
  · next null =>
    have block : (Json.object members).given? "block" = none :=
      Json.given?_eq_none_iff.mpr (.inr null)
    rw [plug?, block, Option.none_or]
  · next j other given =>
    have block : (Json.object members).given? "block" = some j :=
      Json.given?_eq_some_iff.mpr ⟨given, other⟩
    rw [plug?, block, Option.some_or]

theorem connection_ok_iff {c : Json} {x : Option (Block β)} :
    connection registry path c = .ok x ↔
      (∃ members, c = .object members) ∧ Means (Builds registry path) none (plug? c) x := by
  cases c with
  | object members =>
    rw [connection, plugged_ok_iff, given?_plugName]
    simp
  | null | bool | number | string | array => simp [connection]

theorem nextOf_ok_iff {es : List (String × Json)} {x : Option (Block β)} :
    nextOf registry path es = .ok x ↔
      Means (fun c x => connection registry (path.down .next) c = .ok x) none
        ((Json.object es).given? "next") x := by
  rw [means_given?_iff]
  induction es with
  | nil => simp [nextOf, eq_comm]
  | cons e rest ih =>
    obtain ⟨k, v⟩ := e
    rw [nextOf, Entries.value?_cons]
    split
    · cases v with
      | null => simp [Json.isNull, eq_comm]
      | bool | number | string | array | object => simp [Json.isNull]
    · exact ih

theorem sectionOf_ok_iff {key : String} {es : List (String × Json)}
    {bs : List (String × Block β)} :
    sectionOf registry path key es = .ok bs ↔
      Means (fun j bs => ∃ slots, j = .object slots ∧ slotEntries registry path key slots = .ok bs)
        [] ((Json.object es).given? key) bs := by
  rw [means_given?_iff]
  induction es with
  | nil => simp [sectionOf, eq_comm]
  | cons e rest ih =>
    obtain ⟨k, v⟩ := e
    rw [sectionOf, Entries.value?_cons]
    split
    · cases v with
      | null => simp [slots, eq_comm]
      | bool | number | string | array | object => simp [slots]
    · exact ih

theorem slotEntries_cons_ok_iff {key slot : String} {c : Json} {rest : List (String × Json)}
    {bs : List (String × Block β)} :
    slotEntries registry path key ((slot, c) :: rest) = .ok bs ↔ ∃ x others,
      connection registry (path.down (.slot key slot)) c = .ok x ∧
      slotEntries registry path key rest = .ok others ∧
      bs = (x.map fun b => (slot, b)).toList ++ others := by
  simp only [slotEntries, bind_eq_ok_iff]
  constructor
  · rintro ⟨x, plugged, others, read, eq⟩
    refine ⟨x, others, plugged, read, ?_⟩
    cases x <;> simpa [eq_comm] using eq
  · rintro ⟨x, others, plugged, read, rfl⟩
    refine ⟨x, plugged, others, read, ?_⟩
    cases x <;> rfl

/-- The slots of a section are read if all its connections are. -/
theorem slotEntries_ok_iff {key : String} {slots : List (String × Json)} :
    (∃ bs : List (String × Block β), slotEntries registry path key slots = .ok bs) ↔
      ∀ e ∈ slots, ∃ x, connection registry (path.down (.slot key e.1)) e.2 = .ok x := by
  induction slots with
  | nil => simp [slotEntries]
  | cons e rest ih =>
    obtain ⟨slot, c⟩ := e
    simp only [slotEntries_cons_ok_iff, List.forall_mem_cons, ← ih]
    constructor
    · rintro ⟨bs, x, others, first, read, -⟩
      exact ⟨⟨x, first⟩, others, read⟩
    · rintro ⟨⟨x, first⟩, others, read⟩
      exact ⟨_, x, others, first, read, rfl⟩

theorem slotEntries_names {key : String} {slots : List (String × Json)}
    {bs : List (String × Block β)} (ok : slotEntries registry path key slots = .ok bs) :
    (Entries.names bs).Sublist (Entries.names slots) := by
  induction slots generalizing bs with
  | nil =>
    cases ok
    exact .refl _
  | cons e rest ih =>
    obtain ⟨slot, c⟩ := e
    obtain ⟨x, others, -, read, rfl⟩ := slotEntries_cons_ok_iff.mp ok
    cases x with
    | none => exact (ih read).cons slot
    | some b => exact (ih read).cons_cons slot

/-- What is plugged in is the block of a node, wherever that node was read. -/
abbrev Built (registry : Registry β) : Option Json → Option (Block β) → Prop :=
  Means (fun node x => ∃ path, Builds registry path node x) none

theorem Built.or {m n : Option Json} {x y : Option (Block β)} (h : Built registry m x)
    (k : Built registry n y) : Built registry (m.or n) (x.or y) := by
  cases m with
  | none =>
    cases h
    exact k
  | some node =>
    obtain ⟨path, b, read, rfl⟩ := h
    exact ⟨path, b, read, rfl⟩

theorem Built.isSome {n : Option Json} {x : Option (Block β)} (h : Built registry n x) :
    x.isSome = n.isSome := by
  cases n with
  | none =>
    cases h
    rfl
  | some node =>
    obtain ⟨path, b, -, rfl⟩ := h
    rfl

theorem Built.block {node : Json} {b : Block β} (h : Built registry (some node) (some b)) :
    ∃ path, block registry path node = .ok b := by
  obtain ⟨path, b, read, eq⟩ := h
  cases eq
  exact ⟨path, read⟩

theorem built_of_connection {c : Json} {x : Option (Block β)}
    (read : connection registry path c = .ok x) : Built registry (plug? c) x := by
  have means := (connection_ok_iff.mp read).2
  cases plugged : plug? c with
  | none =>
    rw [plugged] at means
    exact means
  | some node =>
    rw [plugged] at means
    exact ⟨path, means⟩

/-- Of slots with different names, each holds what its connection holds. -/
theorem slotEntries_built {key : String} {slots : List (String × Json)}
    {bs : List (String × Block β)} (ok : slotEntries registry path key slots = .ok bs)
    (unique : (Entries.names slots).Nodup) (slot : String) :
    Built registry ((Entries.value? slot slots).bind plug?) (Entries.value? slot bs) := by
  induction slots generalizing bs with
  | nil =>
    cases ok
    rfl
  | cons e rest ih =>
    obtain ⟨name, c⟩ := e
    obtain ⟨fresh, unique⟩ := List.nodup_cons.mp unique
    obtain ⟨x, others, first, read, rfl⟩ := slotEntries_cons_ok_iff.mp ok
    rw [Entries.value?_cons]
    by_cases eq : name = slot
    · subst eq
      have absent : Entries.value? name others = none := by
        rw [Entries.value?_eq_none_iff]
        intro e mem eq
        exact fresh ((slotEntries_names read).subset (List.mem_map.mpr ⟨e, mem, eq⟩))
      have plugged : Entries.value? name ((x.map fun b => (name, b)).toList ++ others) = x := by
        cases x with
        | none => exact absent
        | some b => simp [Entries.value?_cons]
      rw [if_pos rfl, plugged]
      exact built_of_connection first
    · have skipped : Entries.value? slot ((x.map fun b => (name, b)).toList ++ others) =
          Entries.value? slot others := by
        cases x with
        | none => rfl
        | some b => simp [Entries.value?_cons, eq]
      rw [if_neg eq, skipped]
      exact ih read unique

theorem sectionOf_built {key : String} {es : List (String × Json)}
    {bs : List (String × Block β)} (read : sectionOf registry path key es = .ok bs)
    (unique : (Json.object es).UniqueKeys) :
    (Entries.names bs).Nodup ∧
      ∀ slot, Built registry (slotNode? key slot (.object es)) (Entries.value? slot bs) := by
  have means := sectionOf_ok_iff.mp read
  cases given : (Json.object es).given? key with
  | none =>
    rw [given] at means
    cases means
    refine ⟨.nil, ?_⟩
    intro slot
    obtain missing | null := Json.given?_eq_none_iff.mp given
    · rw [slotNode?, missing]
      rfl
    · rw [slotNode?, null]
      rfl
  | some j =>
    rw [given] at means
    obtain ⟨slots, rfl, read⟩ := means
    have member := Json.member?_of_given? given
    obtain ⟨names, -⟩ := Json.uniqueKeys_object_iff.mp (unique.member? member)
    refine ⟨names.sublist (slotEntries_names read), ?_⟩
    intro slot
    rw [slotNode?, member]
    exact slotEntries_built read names slot

theorem nextOf_built {es : List (String × Json)} {next : Option (Block β)}
    (read : nextOf registry path es = .ok next) :
    Built registry (nextNode? (.object es)) next := by
  have means := nextOf_ok_iff.mp read
  cases given : (Json.object es).given? "next" with
  | none =>
    rw [given] at means
    cases means
    obtain missing | null := Json.given?_eq_none_iff.mp given
    · rw [nextNode?, missing]
      rfl
    · rw [nextNode?, null]
      rfl
  | some c =>
    rw [given] at means
    rw [nextNode?, Json.member?_of_given? given]
    exact built_of_connection means

/-- A block is read if what its node says of it is, and all its connections are. -/
theorem block_ok_iff {node : Json} {b : Block β} :
    block registry path node = .ok b ↔ ∃ es h inputs values next, node = .object es ∧
      HeaderOf registry node h ∧
      sectionOf registry path "inputs" es = .ok inputs ∧
      sectionOf registry path "values" es = .ok values ∧
      nextOf registry path es = .ok next ∧
      b = .mk h (Entries.putAll values (Entries.ofList inputs)) next := by
  constructor
  · intro read
    cases node with
    | object es =>
      simp only [block, bind_eq_ok_iff, Except.ok.injEq] at read
      obtain ⟨⟨kind, behavior⟩, known, id, identified, fields, noted, inputs, plugged, values,
        given, mutations, listed, next, follows, rfl⟩ := read
      obtain ⟨kind_eq, behavior_eq⟩ := readKind_ok_iff.mp known
      exact ⟨es, ⟨kind, id, behavior, fields, mutations⟩, inputs, values, next, rfl,
        ⟨kind_eq, behavior_eq, readId_ok_iff.mp identified, readFields_ok_iff.mp noted,
          readMutations_ok_iff.mp listed⟩, plugged, given, follows, rfl⟩
    | null | bool | number | string | array => cases read
  · rintro ⟨es, h, inputs, values, next, rfl, header, plugged, given, follows, rfl⟩
    simp only [block, bind_eq_ok_iff, Except.ok.injEq]
    exact ⟨(h.kind, h.behavior), readKind_ok_iff.mpr ⟨header.kind, header.behavior⟩,
      h.id, readId_ok_iff.mpr header.id, h.fields, readFields_ok_iff.mpr header.fields,
      inputs, plugged, values, given, h.mutations, readMutations_ok_iff.mpr header.mutations,
      next, follows, rfl⟩

/-- The blocks of a section are read if it has connections only, and they are read. -/
theorem exists_sectionOf_iff {key : String} {es : List (String × Json)} :
    (∃ bs, sectionOf registry path key es = .ok bs) ↔
      ∀ j, (Json.object es).given? key = some j → ∃ slots, j = .object slots ∧
        ∀ e ∈ slots, ∃ x, connection registry (path.down (.slot key e.1)) e.2 = .ok x := by
  simp only [sectionOf_ok_iff, Means.exists_iff, ← slotEntries_ok_iff]
  constructor
  · intro read j given
    obtain ⟨bs, slots, eq, read⟩ := read j given
    exact ⟨slots, eq, bs, read⟩
  · intro read j given
    obtain ⟨slots, eq, bs, read⟩ := read j given
    exact ⟨bs, slots, eq, read⟩

/-- Every connection of a block that was read was read. -/
theorem connection_ok_of_connects {node c : Json} {b : Block β}
    (ok : block registry path node = .ok b) (connects : Connects node c) :
    ∃ path x, connection registry path c = .ok x := by
  obtain ⟨es, h, inputs, values, next, rfl, -, plugged, given, follows, -⟩ := block_ok_iff.mp ok
  cases connects with
  | @slot key name slots _ key_eq present mem =>
    obtain ⟨bs, read⟩ : ∃ bs, sectionOf registry path key es = .ok bs := by
      obtain rfl | rfl := key_eq
      · exact ⟨inputs, plugged⟩
      · exact ⟨values, given⟩
    obtain ⟨slots, eq, read⟩ := exists_sectionOf_iff.mp ⟨bs, read⟩ _ present
    cases eq
    exact ⟨_, read _ mem⟩
  | next present =>
    have means := nextOf_ok_iff.mp follows
    rw [present] at means
    exact ⟨_, next, means⟩

/-- Nothing is read but what the grammar has. -/
theorem validBlock_of_block_ok {node : Json} {b : Block β}
    (ok : block registry path node = .ok b) : ValidBlock registry node := by
  induction node using plugged_induction generalizing path b with
  | step node ih =>
    have connected {c : Json} (connects : Connects node c) := connection_ok_of_connects ok connects
    obtain ⟨es, h, inputs, values, next, rfl, header, plugged, given, -⟩ := block_ok_iff.mp ok
    obtain ⟨kind, id, fields, mutations⟩ := exists_headerOf_iff.mp ⟨h, header⟩
    have objects {key : String} {bs : List (String × Block β)}
        (read : sectionOf registry path key es = .ok bs) (j : Json)
        (given : (Json.object es).given? key = some j) : ∃ slots, j = .object slots := by
      obtain ⟨slots, eq, -⟩ := exists_sectionOf_iff.mp ⟨bs, read⟩ j given
      exact ⟨slots, eq⟩
    refine .mk ⟨kind, id, fields, objects plugged, objects given, mutations, ?_⟩ ?_
    · intro c connects
      obtain ⟨there, x, read⟩ := connected connects
      exact (connection_ok_iff.mp read).1
    · intro c inner connects eq
      obtain ⟨there, x, read⟩ := connected connects
      have means := (connection_ok_iff.mp read).2
      rw [eq] at means
      obtain ⟨b, read, -⟩ := means
      exact ih c inner connects eq read

/-- All that the grammar has is read. -/
theorem ValidBlock.block_ok {node : Json} (valid : ValidBlock registry node) (path : Path) :
    ∃ b, block registry path node = .ok b := by
  induction valid generalizing path with
  | @mk node shape _ ih =>
    have connected (there : Path) (c : Json) (connects : Connects node c) :
        ∃ x, connection registry there c = .ok x := by
      obtain ⟨x, means⟩ : ∃ x, Means (Builds registry there) none (plug? c) x := by
        rw [Means.exists_iff]
        intro inner eq
        obtain ⟨b, read⟩ := ih c inner connects eq there
        exact ⟨some b, b, read, rfl⟩
      exact ⟨x, connection_ok_iff.mpr ⟨shape.connections c connects, means⟩⟩
    obtain ⟨kind, typed, -⟩ := shape.kind
    obtain ⟨es, rfl, -⟩ := Json.object_of_member? typed
    obtain ⟨h, header⟩ := exists_headerOf_iff.mpr
      ⟨shape.kind, shape.id, shape.fields, shape.mutations⟩
    have read {key : String} (key_eq : key = "inputs" ∨ key = "values")
        (objects : ∀ j, (Json.object es).given? key = some j → ∃ slots, j = .object slots) :
        ∃ bs, sectionOf registry path key es = .ok bs := by
      rw [exists_sectionOf_iff]
      intro j given
      obtain ⟨slots, rfl⟩ := objects j given
      exact ⟨slots, rfl, fun e mem => connected _ e.2 (.slot key_eq given mem)⟩
    obtain ⟨inputs, plugged⟩ := read (.inl rfl) shape.inputs
    obtain ⟨values, given⟩ := read (.inr rfl) shape.values
    obtain ⟨next, follows⟩ : ∃ next, nextOf registry path es = .ok next := by
      simp only [nextOf_ok_iff, Means.exists_iff]
      intro c given
      exact connected _ c (.next given)
    exact ⟨_, block_ok_iff.mpr ⟨es, h, inputs, values, next, rfl, header, plugged, given, follows,
      rfl⟩⟩

/-- What is read is the tree the node stands for. -/
theorem represents_of_block_ok {node : Json} {b : Block β} (unique : node.UniqueKeys)
    (ok : block registry path node = .ok b) : Represents registry node b := by
  induction node using plugged_induction generalizing path b with
  | step node ih =>
    obtain ⟨es, h, inputs, values, next, rfl, header, plugged, given, follows, rfl⟩ :=
      block_ok_iff.mp ok
    obtain ⟨names, built⟩ := sectionOf_built plugged unique
    obtain ⟨names', built'⟩ := sectionOf_built given unique
    have slots (slot : String) : Built registry (inputNode? slot (.object es))
        (Entries.value? slot (Entries.putAll values (Entries.ofList inputs))) := by
      have first : Entries.value? slot (Entries.ofList inputs) = Entries.value? slot inputs := by
        have found : Entries.value? slot (Entries.ofList inputs) = _ :=
          Entries.value?_putAll names [] slot
        simpa using found
      rw [Entries.value?_putAll names', first]
      exact (built' slot).or (built slot)
    have successor := nextOf_built follows
    have inside {inner : Json} {b : Block β}
        (connects : ∃ c, Connects (.object es) c ∧ plug? c = some inner)
        (built : Built registry (some inner) (some b)) : Represents registry inner b := by
      obtain ⟨c, connects, eq⟩ := connects
      obtain ⟨there, read⟩ := built.block
      exact ih c inner connects eq (connects.uniqueKeys unique eq) read
    refine .mk header (Entries.Sorted.putAll (Entries.Sorted.putAll .nil _) _)
      (fun slot => (slots slot).isSome) ?_ successor.isSome ?_
    · intro slot inner b eq found
      have built := slots slot
      rw [eq, found] at built
      exact inside (connects_of_inputNode? eq) built
    · intro inner b eq found
      rw [eq, found] at successor
      exact inside (connects_of_nextNode? eq) successor

theorem single_ok_iff {items : List Json} {base : String} {node : Json} :
    (∃ path, rootNode.single items base = .ok (node, path)) ↔ items = [node] := by
  unfold rootNode.single
  split <;> simp_all

/-- Without a type of its own, a document has the root that its blocks have. -/
theorem rootOf_untyped_iff {document node : Json} (untyped : document.member? "type" = none) :
    RootOf document node ↔ document.member? "blocks" = some (.array [node]) ∨
      ∃ inner, document.member? "blocks" = some inner ∧
        inner.member? "blocks" = some (.array [node]) := by
  constructor
  · intro root
    cases root with
    | block type => cases untyped.symm.trans type
    | listed _ blocks => exact .inl blocks
    | workspace _ blocks items => exact .inr ⟨_, blocks, items⟩
  · rintro (blocks | ⟨inner, blocks, items⟩)
    · exact .listed untyped blocks
    · exact .workspace untyped blocks items

theorem rootNode_ok_iff {document node : Json} :
    (∃ path, rootNode document = .ok (node, path)) ↔ RootOf document node := by
  cases document with
  | object es =>
    cases typed : Entries.value? "type" es with
    | some kind =>
      simp only [rootNode, Entries.binds, typed, Option.isSome_some, ↓reduceIte,
        Except.ok.injEq, Prod.mk.injEq]
      constructor
      · rintro ⟨path, rfl, -⟩
        exact .block typed
      · intro root
        cases root with
        | block => exact ⟨_, rfl, rfl⟩
        | listed untyped => cases typed.symm.trans untyped
        | workspace untyped => cases typed.symm.trans untyped
    | none =>
      have untyped : (Json.object es).member? "type" = none := typed
      rw [rootOf_untyped_iff untyped]
      simp only [rootNode, Entries.binds, typed, Option.isSome_none, Bool.false_eq_true,
        ↓reduceIte, Json.member?]
      cases Entries.value? "blocks" es with
      | none => simp
      | some blocks =>
        cases blocks with
        | array items => simp [single_ok_iff]
        | object workspace =>
          cases items : Entries.value? "blocks" workspace with
          | none => simp [items]
          | some inner => cases inner <;> simp [items, single_ok_iff]
        | null | bool | number | string => simp
  | null | bool | number | string | array =>
    rw [rootOf_untyped_iff rfl]
    simp [rootNode, Json.member?]

/-- A document is read exactly if it has a root node that is a valid block. What is read from a
document whose objects name no member twice is the one tree that this node stands for. -/
theorem build_accepts_the_grammar {β : Type} (registry : Registry β) (document : Json) :
    ((∃ b, build registry document = .ok b) ↔
      ∃ node, RootOf document node ∧ ValidBlock registry node) ∧
    (document.UniqueKeys → ∀ b, build registry document = .ok b ↔
      ∃ node, RootOf document node ∧ ValidBlock registry node ∧ Represents registry node b) := by
  have accepted {b : Block β} (ok : build registry document = .ok b) :
      ∃ node path, RootOf document node ∧ block registry path node = .ok b := by
    obtain ⟨⟨node, path⟩, root, read⟩ := bind_eq_ok_iff.mp ok
    exact ⟨node, path, rootNode_ok_iff.mp ⟨path, root⟩, read⟩
  have built {node : Json} (root : RootOf document node) (valid : ValidBlock registry node) :
      ∃ path b, block registry path node = .ok b ∧ build registry document = .ok b := by
    obtain ⟨path, found⟩ := rootNode_ok_iff.mpr root
    obtain ⟨b, read⟩ := valid.block_ok path
    exact ⟨path, b, read, bind_eq_ok_iff.mpr ⟨(node, path), found, read⟩⟩
  refine ⟨⟨?_, ?_⟩, fun unique b => ⟨?_, ?_⟩⟩
  · rintro ⟨b, ok⟩
    obtain ⟨node, path, root, read⟩ := accepted ok
    exact ⟨node, root, validBlock_of_block_ok read⟩
  · rintro ⟨node, root, valid⟩
    obtain ⟨path, b, -, ok⟩ := built root valid
    exact ⟨b, ok⟩
  · intro ok
    obtain ⟨node, path, root, read⟩ := accepted ok
    exact ⟨node, root, validBlock_of_block_ok read,
      represents_of_block_ok (root.uniqueKeys unique) read⟩
  · rintro ⟨node, root, valid, represents⟩
    obtain ⟨path, c, read, ok⟩ := built root valid
    have same : c = b :=
      (represents_of_block_ok (root.uniqueKeys unique) read).unique represents
    rw [← same]
    exact ok

/-- A workspace whose block has a value that goes before an input, a shadow that nothing is said
of, and mutations of both sorts. -/
theorem value_before_input_and_hidden_shadow :
    let literal (text : String) : Json :=
      .object [("fields", .object [("TEXT", .string text)]), ("type", .string "text")]
    let node : Json := .object [
      ("extraState", .object [("e", .null)]),
      ("fields", .object [("KEY", .string "k")]),
      ("id", .null),
      ("inputs", .object [("VALUE", .object [("shadow", literal "a")])]),
      ("mutations", .array [.object [("domain", .null), ("name", .string "m")]]),
      ("next", .object [("block", .object [("type", .string "logic_null")])]),
      ("type", .string "log_tag"),
      ("values", .object [("VALUE", .object [("block", literal "b"), ("shadow", .bool true)])])]
    let document : Json := .object [("blocks", .object [("blocks", .array [node])])]
    document.UniqueKeys ∧ ∃ b, build Registry.standard document = .ok b ∧
      (b.input? "VALUE").map (fun i => i.header.fields) = some [("TEXT", .string "b")] ∧
      b.header.mutations = [⟨"config", "m", .null⟩, ⟨"config", "e", .null⟩] ∧
      ∃ node, RootOf document node ∧ ValidBlock Registry.standard node ∧
        Represents Registry.standard node b := by
  intro literal node document
  have unique : document.UniqueKeys := by simp [document, node, literal, Entries.names]
  obtain ⟨b, ok, input, mutations⟩ : ∃ b, build Registry.standard document = .ok b ∧
      (b.input? "VALUE").map (fun i => i.header.fields) = some [("TEXT", .string "b")] ∧
      b.header.mutations = [⟨"config", "m", .null⟩, ⟨"config", "e", .null⟩] :=
    ⟨_, rfl, rfl, rfl⟩
  exact ⟨unique, b, ok, input, mutations,
    ((build_accepts_the_grammar Registry.standard document).2 unique b).mp ok⟩

end BlockScript.Document
