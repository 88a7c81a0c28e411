import Mathlib.Logic.Relation
import BlockScript.Proofs.RegistryGrowth
/-!
Documents that differ on the surface only.

A script may be written as a bare block, in a list or in a workspace. Within it, inputs may be given
as values, a shadow as the block itself, and members that are null may as well be missing. None of
this shows in the tree, at whatever depth and in whatever combination it is done. Where the root
stands shows in the paths of errors, and only there.
-/

namespace BlockScript

/-- The same error in a document that has its root elsewhere. -/
def ParseError.rebase (base : String) : ParseError → ParseError
  | .unknownKind kind path => .unknownKind kind { path with base }
  | .malformed path fault => .malformed { path with base } fault
  | e => e

theorem ParseError.path?_rebase (base : String) (e : ParseError) :
    (e.rebase base).path? = e.path?.map fun path => { path with base } := by
  cases e <;> rfl

namespace Document

variable {β : Type} {registry : Registry β} {path : Path}

section Roots

variable {base : String}

theorem misshapen_rebase (shape : Json → Bool) (fault : Malformation) (j : Json) :
    misshapen shape (.malformed { path with base } fault) j =
      (misshapen shape (.malformed path fault) j).map (ParseError.rebase base) := by
  unfold misshapen
  split <;> rfl

theorem given_rebase (given : Option Json) (shape : Json → Bool) (fault : Malformation) :
    given.bind (misshapen shape (.malformed { path with base } fault)) =
      (given.bind (misshapen shape (.malformed path fault))).map (ParseError.rebase base) := by
  cases given with
  | none => rfl
  | some j => exact misshapen_rebase shape fault j

/-- A check finds the same fault wherever the root stands. -/
theorem Check.fault?_rebase (check : Check) :
    check.fault? registry { path with base } =
      (check.fault? registry path).map (ParseError.rebase base) := by
  cases check with
  | block node check =>
    cases check with
    | isObject => exact misshapen_rebase _ _ node
    | hasType =>
      simp only [Check.fault?, BlockCheck.fault?]
      split
      · rfl
      · exact misshapen_rebase _ _ _
    | hasKnownKind =>
      simp only [Check.fault?, BlockCheck.fault?]
      split
      · split <;> rfl
      · rfl
    | id | fields | slots | mutations => exact given_rebase _ _ _
  | connection c => exact misshapen_rebase _ _ c
  | mutation item check =>
    cases check with
    | isObject => exact misshapen_rebase _ _ item
    | domain => exact given_rebase _ _ _
    | name =>
      simp only [Check.fault?, MutationCheck.fault?]
      split <;> rfl

theorem firstFault_rebase (visits : List Visit) :
    firstFault registry { path with base } visits =
      (firstFault registry path visits).map (ParseError.rebase base) := by
  induction visits with
  | nil => rfl
  | cons v visits ih =>
    have first : v.fault? registry { path with base } =
        (v.fault? registry path).map (ParseError.rebase base) := by
      change v.check.fault? registry { path.along v.steps with base } = _
      exact v.check.fault?_rebase
    rw [firstFault_cons, firstFault_cons, first, ih]
    cases v.fault? registry path <;> rfl

/-- Where the root stands decides nothing but how the paths of errors begin. -/
theorem block_rebase (path : Path) (node : Json) :
    block registry { path with base } node =
      (block registry path node).mapError (ParseError.rebase base) := by
  -- A tree carries over as it is; an error is the first fault of the same visits.
  cases read : block registry path node with
  | ok b => exact block_carried (.refl registry) read _
  | error e =>
    have found := failure?_eq_some_iff.mpr read
    rw [block_faithful node path] at found
    have moved : failure? (block registry { path with base } node) = _ := block_faithful node _
    rw [firstFault_rebase, found] at moved
    exact failure?_eq_some_iff.mp moved

end Roots

/-- The forms in which a node can be the root of a document, and the place it has there. -/
inductive Form (node : Json) : String → Json → Prop
  | bare : Form node "$" node
  | listed {document : Json} (untyped : document.member? "type" = none)
      (blocks : document.member? "blocks" = some (.array [node])) :
      Form node "$.blocks[0]" document
  | workspace {document inner : Json} (untyped : document.member? "type" = none)
      (blocks : document.member? "blocks" = some inner)
      (items : inner.member? "blocks" = some (.array [node])) :
      Form node "$.blocks.blocks[0]" document

theorem Form.rootNode {node kind document : Json} {base : String}
    (typed : node.member? "type" = some kind) (form : Form node base document) :
    rootNode document = .ok (node, { base }) := by
  cases form with
  | bare =>
    obtain ⟨es, rfl, -⟩ := Json.object_of_member? typed
    have found : Entries.value? "type" es = some kind := typed
    simp [Document.rootNode, Entries.binds, found]
  | listed untyped blocks =>
    obtain ⟨es, rfl, -⟩ := Json.object_of_member? blocks
    have absent : Entries.value? "type" es = none := untyped
    have found : Entries.value? "blocks" es = some (.array [node]) := blocks
    simp only [Document.rootNode, Entries.binds, absent, found]
    rfl
  | @workspace _ inner untyped blocks items =>
    obtain ⟨es, rfl, -⟩ := Json.object_of_member? blocks
    obtain ⟨members, rfl, -⟩ := Json.object_of_member? items
    have absent : Entries.value? "type" es = none := untyped
    have found : Entries.value? "blocks" es = some (.object members) := blocks
    have inside : Entries.value? "blocks" members = some (.array [node]) := items
    simp only [Document.rootNode, Entries.binds, absent, found, inside]
    rfl

theorem Form.build_eq {node kind document : Json} {base : String}
    (typed : node.member? "type" = some kind) (form : Form node base document) :
    build registry document = block registry { base } node := by
  rw [build, form.rootNode typed]
  rfl

/-- What a node of a document is read as. -/
inductive Role where
  | block
  | connection

/-- Objects with the same members, those of some names aside. -/
def AgreeBut (names : List String) (es fs : Entries Json) : Prop :=
  ∀ name, name ∉ names → Entries.value? name es = Entries.value? name fs

/-- The members of a block that may be missing, and may be null instead. -/
def optionalMembers : List String :=
  ["id", "fields", "inputs", "values", "mutations", "extraState", "next"]

/-- A block or a connection is written in another way, at one place in it. -/
inductive Rewrites : Role → Json → Json → Prop
  /-- All inputs are given as values. -/
  | move {es fs : Entries Json} {slots : Json} (others : AgreeBut ["inputs", "values"] es fs)
      (inputs : Entries.value? "inputs" es = some slots)
      (values : Entries.value? "values" es = none)
      (moved : Entries.value? "values" fs = some slots)
      (gone : Entries.value? "inputs" fs = none) : Rewrites .block (.object es) (.object fs)
  /-- A member that is null is left out. -/
  | drop {es fs : Entries Json} {name : String} (others : AgreeBut [name] es fs)
      (optional : name ∈ optionalMembers) (null : Entries.value? name es = some .null)
      (gone : Entries.value? name fs = none) : Rewrites .block (.object es) (.object fs)
  /-- A shadow behind a block is left out. -/
  | unshadow {es fs : Entries Json} {inner : Json} (others : AgreeBut ["shadow"] es fs)
      (block : Entries.value? "block" es = some inner) (proper : inner ≠ .null)
      (gone : Entries.value? "shadow" fs = none) : Rewrites .connection (.object es) (.object fs)
  /-- A shadow is made the block. -/
  | promote {es fs : Entries Json} {inner : Json} (others : AgreeBut ["block", "shadow"] es fs)
      (noBlock : Entries.value? "block" es = none)
      (shadow : Entries.value? "shadow" es = some inner)
      (block : Entries.value? "block" fs = some inner)
      (gone : Entries.value? "shadow" fs = none) : Rewrites .connection (.object es) (.object fs)
  /-- The connection in one slot is written in another way. -/
  | slot {es fs : Entries Json} {key name : String} {front back : List (String × Json)}
      {c d : Json} (key_eq : key = "inputs" ∨ key = "values") (others : AgreeBut [key] es fs)
      (before : Entries.value? key es = some (.object (front ++ (name, c) :: back)))
      (after : Entries.value? key fs = some (.object (front ++ (name, d) :: back)))
      (inside : Rewrites .connection c d) : Rewrites .block (.object es) (.object fs)
  /-- The connection to what follows is written in another way. -/
  | next {es fs : Entries Json} {c d : Json} (others : AgreeBut ["next"] es fs)
      (before : Entries.value? "next" es = some c) (after : Entries.value? "next" fs = some d)
      (inside : Rewrites .connection c d) : Rewrites .block (.object es) (.object fs)
  /-- The node plugged into a connection is written in another way. -/
  | plugged {es fs : Entries Json} {j k : Json} (others : AgreeBut [plugName es] es fs)
      (before : Entries.value? (plugName es) es = some j)
      (after : Entries.value? (plugName es) fs = some k)
      (inside : Rewrites .block j k) : Rewrites .connection (.object es) (.object fs)

/-- What is rewritten is an object, and so is what it is rewritten to. -/
theorem Rewrites.objects {role : Role} {j k : Json} (h : Rewrites role j k) :
    (∃ es, j = .object es) ∧ ∃ fs, k = .object fs := by
  cases h <;> exact ⟨⟨_, rfl⟩, _, rfl⟩

/-- Two nodes are read the same, wherever they stand. -/
def Alike (registry : Registry β) : Role → Json → Json → Prop
  | .block, j, k => ∀ path b, block registry path j = .ok b ↔ block registry path k = .ok b
  | .connection, c, d =>
    ∀ path x, connection registry path c = .ok x ↔ connection registry path d = .ok x

section Members

variable {es fs : Entries Json} {names : List String}

theorem AgreeBut.given? (agree : AgreeBut names es fs) {name : String} (other : name ∉ names) :
    (Json.object es).given? name = (Json.object fs).given? name := by
  rw [given?_object, given?_object, agree name other]

/-- Objects agree but for some names when what they have under others is the same. -/
theorem AgreeBut.of_filter
    (same : es.filter (fun e => !names.contains e.1) = fs.filter fun e => !names.contains e.1) :
    AgreeBut names es fs := by
  intro name other
  have kept (es : Entries Json) :
      Entries.value? name (es.filter fun e => !names.contains e.1) = Entries.value? name es := by
    induction es with
    | nil => rfl
    | cons e es ih =>
      obtain ⟨k, v⟩ := e
      by_cases listed : k ∈ names
      · have elsewhere : k ≠ name := fun here => other (here ▸ listed)
        rw [List.filter_cons_of_neg (by simpa using listed), Entries.value?_cons, if_neg elsewhere,
          ih]
      · rw [List.filter_cons_of_pos (by simpa using listed), Entries.value?_cons,
          Entries.value?_cons, ih]
  rw [← kept es, ← kept fs, same]

/-- Blocks whose headers are written the same have the same. -/
theorem headerOf_congr (type : Entries.value? "type" es = Entries.value? "type" fs)
    (given : ∀ name ∈ ["id", "fields", "mutations", "extraState"],
      (Json.object es).given? name = (Json.object fs).given? name) (h : Header β) :
    HeaderOf registry (.object es) h ↔ HeaderOf registry (.object fs) h := by
  have type' : (Json.object es).member? "type" = (Json.object fs).member? "type" := type
  have id := given "id" (by simp)
  have fields := given "fields" (by simp)
  have mutations := given "mutations" (by simp)
  have extra := given "extraState" (by simp)
  constructor
  · rintro ⟨kind, behavior, id', fields', mutations'⟩
    exact ⟨type' ▸ kind, behavior, id ▸ id', fields ▸ fields', mutations ▸ extra ▸ mutations'⟩
  · rintro ⟨kind, behavior, id', fields', mutations'⟩
    exact ⟨type' ▸ kind, behavior, id ▸ id', fields ▸ fields', mutations ▸ extra ▸ mutations'⟩

theorem AgreeBut.headerOf (agree : AgreeBut names es fs)
    (apart : ∀ name ∈ ["type", "id", "fields", "mutations", "extraState"], name ∉ names)
    (h : Header β) : HeaderOf registry (.object es) h ↔ HeaderOf registry (.object fs) h := by
  apply headerOf_congr (agree "type" (apart "type" (by simp)))
  intro name mem
  exact agree.given? (apart name (List.mem_cons_of_mem _ mem))

theorem sectionOf_congr {key : String}
    (given : (Json.object es).given? key = (Json.object fs).given? key)
    (bs : List (String × Block β)) :
    sectionOf registry path key es = .ok bs ↔ sectionOf registry path key fs = .ok bs := by
  rw [sectionOf_ok_iff, sectionOf_ok_iff, given]

theorem nextOf_congr (given : (Json.object es).given? "next" = (Json.object fs).given? "next")
    (x : Option (Block β)) :
    nextOf registry path es = .ok x ↔ nextOf registry path fs = .ok x := by
  rw [nextOf_ok_iff, nextOf_ok_iff, given]

/-- The blocks that both sections of a node put into slots. -/
def Fills (registry : Registry β) (path : Path) (es : Entries Json) (ins : Entries (Block β)) :
    Prop :=
  ∃ inputs values, sectionOf registry path "inputs" es = .ok inputs ∧
    sectionOf registry path "values" es = .ok values ∧
    ins = Entries.putAll values (Entries.ofList inputs)

theorem fills_congr (inputs : ∀ bs : List (String × Block β),
      sectionOf registry path "inputs" es = .ok bs ↔ sectionOf registry path "inputs" fs = .ok bs)
    (values : ∀ bs : List (String × Block β),
      sectionOf registry path "values" es = .ok bs ↔ sectionOf registry path "values" fs = .ok bs)
    (ins : Entries (Block β)) : Fills registry path es ins ↔ Fills registry path fs ins := by
  simp only [Fills, inputs, values]

/-- Nodes that say the same of their block, fill its slots alike and are followed alike are read
the same. -/
theorem alike_of_parts
    (header : ∀ h, HeaderOf registry (.object es) h ↔ HeaderOf registry (.object fs) h)
    (slots : ∀ path ins, Fills registry path es ins ↔ Fills registry path fs ins)
    (next : ∀ path x, nextOf registry path es = .ok x ↔ nextOf registry path fs = .ok x) :
    Alike registry .block (.object es) (.object fs) := by
  have parts (es : Entries Json) (path : Path) (b : Block β) :
      block registry path (.object es) = .ok b ↔ ∃ h ins next,
        HeaderOf registry (.object es) h ∧ Fills registry path es ins ∧
        nextOf registry path es = .ok next ∧ b = .mk h ins next := by
    rw [block_ok_iff]
    constructor
    · rintro ⟨es', h, inputs, values, next, eq, header, plugged, given, follows, rfl⟩
      cases eq
      exact ⟨h, _, next, header, ⟨inputs, values, plugged, given, rfl⟩, follows, rfl⟩
    · rintro ⟨h, ins, next, header, ⟨inputs, values, plugged, given, rfl⟩, follows, rfl⟩
      exact ⟨es, h, inputs, values, next, rfl, header, plugged, given, follows, rfl⟩
  intro path b
  simp only [parts, header, slots, next]

/-- What one section says of its slots, another can say as well. -/
theorem sectionOf_moved {key key' : String}
    (same : Entries.value? key es = Entries.value? key' fs) {bs : List (String × Block β)}
    (read : sectionOf registry path key es = .ok bs) :
    sectionOf registry path key' fs = .ok bs := by
  have given : (Json.object es).given? key = (Json.object fs).given? key' := by
    rw [given?_object, given?_object, same]
  have means := sectionOf_ok_iff.mp read
  rw [given] at means
  refine sectionOf_ok_iff.mpr (means.imp ?_)
  rintro j - ⟨slots, rfl, entries⟩
  refine ⟨slots, rfl, slotEntries_carried (List.forall₂_same.mpr ?_) entries⟩
  intro e _
  refine ⟨rfl, fun x read => connection_carried ?_ read⟩
  intro inner b _ inside
  exact block_carried (.refl registry) inside _

theorem sectionOf_missing {key : String} (missing : Entries.value? key es = none)
    (bs : List (String × Block β)) : sectionOf registry path key es = .ok bs ↔ bs = [] := by
  have given : (Json.object es).given? key = none := by
    rw [given?_object, missing]
    rfl
  rw [sectionOf_ok_iff, given]
  rfl

/-- Slots are filled alike by all inputs and no values, and by the same values and no inputs. -/
theorem fills_moved (values : Entries.value? "values" es = none)
    (gone : Entries.value? "inputs" fs = none)
    (same : Entries.value? "inputs" es = Entries.value? "values" fs) (ins : Entries (Block β)) :
    Fills registry path es ins ↔ Fills registry path fs ins := by
  constructor
  · rintro ⟨inputs, none, read, missing, rfl⟩
    rw [(sectionOf_missing values none).mp missing]
    exact ⟨[], inputs, (sectionOf_missing gone []).mpr rfl, sectionOf_moved same read, rfl⟩
  · rintro ⟨none, given, missing, read, rfl⟩
    rw [(sectionOf_missing gone none).mp missing]
    exact ⟨given, [], sectionOf_moved same.symm read, (sectionOf_missing values []).mpr rfl, rfl⟩

/-- A section is read the same when one of its connections is. -/
theorem sectionOf_slot {key name : String} {front back : List (String × Json)} {c d : Json}
    (before : Entries.value? key es = some (.object (front ++ (name, c) :: back)))
    (after : Entries.value? key fs = some (.object (front ++ (name, d) :: back)))
    (alike : ∀ path x, connection registry path c = .ok x → connection registry path d = .ok x)
    {bs : List (String × Block β)} (read : sectionOf registry path key es = .ok bs) :
    sectionOf registry path key fs = .ok bs := by
  have given : (Json.object es).given? key = some (.object (front ++ (name, c) :: back)) :=
    Json.given?_eq_some_iff.mpr ⟨before, by simp⟩
  have given' : (Json.object fs).given? key = some (.object (front ++ (name, d) :: back)) :=
    Json.given?_eq_some_iff.mpr ⟨after, by simp⟩
  have means := sectionOf_ok_iff.mp read
  rw [given] at means
  obtain ⟨slots, eq, entries⟩ := means
  cases eq
  rw [sectionOf_ok_iff, given']
  refine ⟨_, rfl, slotEntries_carried ?_ entries⟩
  have unchanged (slots : List (String × Json)) : List.Forall₂ (fun e e' => e.1 = e'.1 ∧
      ∀ x, connection registry (path.down (.slot key e.1)) e.2 = .ok x →
        connection registry (path.down (.slot key e'.1)) e'.2 = .ok x) slots slots :=
    List.forall₂_same.mpr fun _ _ => ⟨rfl, fun _ read => read⟩
  exact List.rel_append (unchanged front) (.cons ⟨rfl, alike _⟩ (unchanged back))

end Members

/-- A member that is null counts as one that is missing. -/
theorem given?_omitted {es fs : Entries Json} {name : String} (others : AgreeBut [name] es fs)
    (null : Entries.value? name es = some .null) (gone : Entries.value? name fs = none)
    (member : String) : (Json.object es).given? member = (Json.object fs).given? member := by
  by_cases here : member = name
  · subst here
    rw [given?_object, given?_object, null, gone]
    rfl
  · exact others.given? (by simpa using here)

/-- Connections that are objects and hold the same node are read the same. -/
theorem alike_of_plug? {es fs : Entries Json}
    (same : plug? (.object es) = plug? (.object fs)) :
    Alike registry .connection (.object es) (.object fs) := by
  intro path x
  rw [connection_ok_iff, connection_ok_iff, same]
  simp

/-- A connection whose plugged node is replaced by an object holds it under the same name. -/
theorem plugName_replaced {es fs members : Entries Json} (others : AgreeBut [plugName es] es fs)
    (after : Entries.value? (plugName es) fs = some (.object members)) :
    plugName fs = plugName es := by
  by_cases name : plugName es = "block"
  · rw [name] at after ⊢
    rw [plugName, after]
  · have same : Entries.value? "block" es = Entries.value? "block" fs :=
      others "block" (by simpa [eq_comm] using name)
    rw [plugName, plugName, same]

/-- A connection is read the same when the node plugged into it is. -/
theorem alike_of_plugged {es fs : Entries Json} {j k : Json}
    (plugged : plug? (.object es) = some j) (plugged' : plug? (.object fs) = some k)
    (alike : Alike registry .block j k) :
    Alike registry .connection (.object es) (.object fs) := by
  intro path x
  simp only [connection_ok_iff, plugged, plugged', Means, Builds, alike path]
  simp

theorem alike_of_move {es fs : Entries Json} {slots : Json}
    (others : AgreeBut ["inputs", "values"] es fs)
    (inputs : Entries.value? "inputs" es = some slots) (values : Entries.value? "values" es = none)
    (moved : Entries.value? "values" fs = some slots) (gone : Entries.value? "inputs" fs = none) :
    Alike registry .block (.object es) (.object fs) := by
  apply alike_of_parts
  · exact others.headerOf (by decide)
  · intro path ins
    exact fills_moved values gone (inputs.trans moved.symm) ins
  · intro path x
    exact nextOf_congr (others.given? (by decide)) x

theorem type_not_optional {name : String} (optional : name ∈ optionalMembers) :
    "type" ∉ [name] := by
  intro mem
  rw [← List.mem_singleton.mp mem] at optional
  revert optional
  decide

theorem alike_of_drop {es fs : Entries Json} {name : String} (others : AgreeBut [name] es fs)
    (optional : name ∈ optionalMembers) (null : Entries.value? name es = some .null)
    (gone : Entries.value? name fs = none) : Alike registry .block (.object es) (.object fs) := by
  have given := given?_omitted others null gone
  apply alike_of_parts
  · apply headerOf_congr (others "type" (type_not_optional optional))
    intro member _
    exact given member
  · intro path ins
    exact fills_congr (sectionOf_congr (given "inputs")) (sectionOf_congr (given "values")) ins
  · intro path x
    exact nextOf_congr (given "next") x

theorem alike_of_slot {es fs : Entries Json} {key name : String}
    {front back : List (String × Json)} {c d : Json} (key_eq : key = "inputs" ∨ key = "values")
    (others : AgreeBut [key] es fs)
    (before : Entries.value? key es = some (.object (front ++ (name, c) :: back)))
    (after : Entries.value? key fs = some (.object (front ++ (name, d) :: back)))
    (alike : Alike registry .connection c d) :
    Alike registry .block (.object es) (.object fs) := by
  have here (path : Path) (bs : List (String × Block β)) :
      sectionOf registry path key es = .ok bs ↔ sectionOf registry path key fs = .ok bs :=
    ⟨sectionOf_slot before after fun path x => (alike path x).mp,
      sectionOf_slot after before fun path x => (alike path x).mpr⟩
  apply alike_of_parts
  · obtain rfl | rfl := key_eq <;> exact others.headerOf (by decide)
  · intro path ins
    obtain rfl | rfl := key_eq
    · exact fills_congr (here path) (sectionOf_congr (others.given? (by decide))) ins
    · exact fills_congr (sectionOf_congr (others.given? (by decide))) (here path) ins
  · intro path x
    apply nextOf_congr
    obtain rfl | rfl := key_eq <;> exact others.given? (by decide)

theorem alike_of_next {es fs members members' : Entries Json} (others : AgreeBut ["next"] es fs)
    (before : Entries.value? "next" es = some (.object members))
    (after : Entries.value? "next" fs = some (.object members'))
    (alike : Alike registry .connection (.object members) (.object members')) :
    Alike registry .block (.object es) (.object fs) := by
  have given : (Json.object es).given? "next" = some (.object members) :=
    Json.given?_eq_some_iff.mpr ⟨before, by simp⟩
  have given' : (Json.object fs).given? "next" = some (.object members') :=
    Json.given?_eq_some_iff.mpr ⟨after, by simp⟩
  apply alike_of_parts
  · exact others.headerOf (by decide)
  · intro path ins
    exact fills_congr (sectionOf_congr (others.given? (by decide)))
      (sectionOf_congr (others.given? (by decide))) ins
  · intro path x
    rw [nextOf_ok_iff, nextOf_ok_iff, given, given']
    exact alike _ x

theorem plug?_unshadowed {es fs : Entries Json} {inner : Json} (others : AgreeBut ["shadow"] es fs)
    (block : Entries.value? "block" es = some inner) (proper : inner ≠ .null) :
    plug? (.object es) = plug? (.object fs) := by
  have plugged : (Json.object es).given? "block" = some inner :=
    Json.given?_eq_some_iff.mpr ⟨block, proper⟩
  have plugged' : (Json.object fs).given? "block" = some inner := by
    rw [← plugged]
    exact (others.given? (by decide)).symm
  rw [plug?, plug?, plugged, plugged', Option.some_or, Option.some_or]

/-- Whatever is written in another way is read the same. -/
theorem Rewrites.alike {role : Role} {j k : Json} (h : Rewrites role j k) :
    Alike registry role j k := by
  induction h with
  | move others inputs values moved gone => exact alike_of_move others inputs values moved gone
  | drop others optional null gone => exact alike_of_drop others optional null gone
  | unshadow others block proper => exact alike_of_plug? (plug?_unshadowed others block proper)
  | promote others noBlock shadow block gone =>
    apply alike_of_plug?
    simp only [plug?, given?_object, noBlock, shadow, block, gone, Option.filter_none,
      Option.none_or, Option.or_none]
  | slot key_eq others before after inside ih => exact alike_of_slot key_eq others before after ih
  | next others before after inside ih =>
    obtain ⟨⟨members, rfl⟩, members', rfl⟩ := inside.objects
    exact alike_of_next others before after ih
  | @plugged es fs j k others before after inside ih =>
    obtain ⟨⟨members, rfl⟩, members', rfl⟩ := inside.objects
    have given : (Json.object es).given? (plugName es) = some (.object members) :=
      Json.given?_eq_some_iff.mpr ⟨before, by simp⟩
    have given' : (Json.object fs).given? (plugName fs) = some (.object members') := by
      rw [plugName_replaced others after]
      exact Json.given?_eq_some_iff.mpr ⟨after, by simp⟩
    rw [given?_plugName] at given given'
    exact alike_of_plugged given given' ih

/-- A block keeps its kind however it is written. -/
theorem Rewrites.type_eq {j k : Json} (h : Rewrites .block j k) :
    j.member? "type" = k.member? "type" := by
  cases h with
  | move others => exact others "type" (by decide)
  | next others => exact others "type" (by decide)
  | drop others optional => exact others "type" (type_not_optional optional)
  | slot key_eq others =>
    refine others "type" ?_
    obtain rfl | rfl := key_eq <;> decide

/-- Nodes that are the same but for the way they are written, at any number of places. -/
abbrev SameScript : Json → Json → Prop :=
  Relation.EqvGen (Rewrites .block)

theorem SameScript.alike {n m : Json} (same : SameScript n m) : Alike registry .block n m := by
  induction same with
  | rel n m step => exact step.alike
  | refl n =>
    intro path b
    rfl
  | symm n m _ ih =>
    intro path b
    exact (ih path b).symm
  | trans n m k _ _ first second =>
    intro path b
    exact (first path b).trans (second path b)

theorem SameScript.type_eq {n m : Json} (same : SameScript n m) :
    n.member? "type" = m.member? "type" := by
  induction same with
  | rel n m step => exact step.type_eq
  | refl n => rfl
  | symm n m _ ih => exact ih.symm
  | trans n m k _ _ first second => exact first.trans second

/-- The error of a node names a place in it, which the root's place goes before. -/
theorem block_error_path {node : Json} {base : String} {e : ParseError}
    (failed : block registry { base } node = .error e) :
    ∃ steps, e.path? = some (Path.along { base } steps) := by
  have found := failure?_eq_some_iff.mpr failed
  rw [block_faithful node, firstFault_eq_some_iff] at found
  obtain ⟨before, visit, first⟩ := found
  exact ⟨visit.steps, visit.path?_of_fault? first.fault⟩

/-- A node with a type can be the root of a document in any form. The tree is the same, and so is
the error but for the place of the root, which its path begins with. Written in any other way, at
any number of places and at any depth, the node has the same tree, or has none just as well. -/
theorem surface_forms_build_alike {β : Type} (registry : Registry β) {n kind : Json}
    (typed : n.member? "type" = some kind) :
    (∀ base d, Form n base d →
      build registry d = (build registry n).mapError (ParseError.rebase base)) ∧
    (∀ e, build registry n = .error e → ∃ rest, e.path?.map Path.text = some ("$" ++ rest) ∧
      ∀ base, (e.rebase base).path?.map Path.text = some (base ++ rest)) ∧
    ∀ m, SameScript n m → ∀ base d, Form m base d →
      ∀ b, build registry n = .ok b ↔ build registry d = .ok b := by
  have bare : build registry n = block registry { base := "$" } n := Form.bare.build_eq typed
  refine ⟨?_, ?_, ?_⟩
  · intro base d form
    rw [form.build_eq typed, bare]
    exact block_rebase { base := "$" } n
  · intro e failed
    rw [bare] at failed
    obtain ⟨steps, there⟩ := block_error_path failed
    refine ⟨String.join (steps.map Step.text), ?_, ?_⟩
    · rw [there, Option.map_some, Path.text_along]
      rfl
    · intro base
      rw [e.path?_rebase, there, Option.map_some, Option.map_some]
      exact congrArg some (Path.text_along { base } steps)
  · intro m same base d form b
    have typed' : m.member? "type" = some kind := same.type_eq ▸ typed
    rw [form.build_eq typed', bare, same.alike { base := "$" } b]
    have moved : block registry { base } m =
        (block registry { base := "$" } m).mapError (ParseError.rebase base) :=
      block_rebase { base := "$" } m
    rw [moved]
    cases block registry { base := "$" } m <;> simp [Except.mapError]

/-- A scope whose body has a shadow behind it and is followed by another shadow, written anew in
three places and put into a workspace, is the same tree. One with a body of an unknown kind is
refused where that body stands in its list. -/
theorem scope_in_other_forms :
    let leaf : Json := .object [("type", .string "logic_null")]
    let body (name : String) : Json :=
      .object [("next", .object [(name, leaf)]), ("type", .string "logic_null")]
    let n : Json := .object [
      ("id", .null),
      ("inputs", .object [("DO", .object [("block", body "shadow"), ("shadow", leaf)])]),
      ("type", .string "controls_scope")]
    let m : Json := .object [
      ("type", .string "controls_scope"),
      ("values", .object [("DO", .object [("block", body "block")])])]
    let workspace : Json := .object [("blocks", .object [("blocks", .array [m])])]
    let odd : Json := .object [
      ("inputs", .object [("DO", .object [("block", .object [("type", .string "mystery")])])]),
      ("type", .string "controls_scope")]
    let list : Json := .object [("blocks", .array [odd])]
    SameScript n m ∧
    (∃ b, build Registry.standard n = .ok b ∧ build Registry.standard workspace = .ok b) ∧
    ∃ e, build Registry.standard list = .error e ∧
      e.path?.map Path.text = some "$.blocks[0].inputs.DO" := by
  intro leaf body n m workspace odd list
  have typed : n.member? "type" = some (.string "controls_scope") := rfl
  have typed' : odd.member? "type" = some (.string "controls_scope") := rfl
  have same : SameScript n m := by
    let scope (c : Json) : Json :=
      .object [("inputs", .object [("DO", c)]), ("type", .string "controls_scope")]
    have slotted {c d : Json} (inside : Rewrites .connection c d) :
        Rewrites .block (scope c) (scope d) :=
      @Rewrites.slot _ _ "inputs" "DO" [] [] c d (.inl rfl) (.of_filter rfl) rfl rfl inside
    let shadowed : Json := .object [("block", body "shadow"), ("shadow", leaf)]
    let plain (name : String) : Json := .object [("block", body name)]
    have unnamed : Rewrites .block n (scope shadowed) :=
      @Rewrites.drop _ _ "id" (.of_filter rfl) (by decide) rfl rfl
    have unshadowed : Rewrites .connection shadowed (plain "shadow") :=
      .unshadow (.of_filter rfl) rfl (by simp [body]) rfl
    have promoted : Rewrites .block (body "shadow") (body "block") :=
      .next (.of_filter rfl) rfl rfl (.promote (.of_filter rfl) rfl rfl rfl rfl)
    have inside : Rewrites .connection (plain "shadow") (plain "block") :=
      .plugged (.of_filter rfl) rfl rfl promoted
    have moved : Rewrites .block (scope (plain "block")) m :=
      .move (.of_filter rfl) rfl rfl rfl rfl
    refine .trans _ (scope shadowed) _ (.rel _ _ unnamed) ?_
    refine .trans _ (scope (plain "shadow")) _ (.rel _ _ (slotted unshadowed)) ?_
    exact .trans _ (scope (plain "block")) _ (.rel _ _ (slotted inside)) (.rel _ _ moved)
  refine ⟨same, ?_, ?_⟩
  · obtain ⟨b, built⟩ : ∃ b, build Registry.standard n = .ok b := ⟨_, rfl⟩
    obtain ⟨-, -, alike⟩ := surface_forms_build_alike Registry.standard typed
    exact ⟨b, built, (alike m same _ workspace (.workspace rfl rfl rfl) b).mp built⟩
  · obtain ⟨moved, -, -⟩ := surface_forms_build_alike Registry.standard typed'
    exact ⟨_, moved _ list (.listed rfl rfl), by decide⟩

end Document

end BlockScript
