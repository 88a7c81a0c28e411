import BlockScript.Proofs.BracketDepth
import BlockScript.Proofs.DocumentReading
/-!
The nesting limit bounds the height of the trees that are read.

Each block of a tree stands in a node of its own, two levels at least below that of the block it
is plugged into or follows: one level is that of the connection, the other that of the node. So a
path of blocks is at most half as long as its document is deep.

The limit is a check of the text alone. Reading a decoded document finds no fault in its nesting.
-/

namespace BlockScript

namespace Json

theorem depthEntries_le {es : List (String × Json)} {n : Nat} (all : ∀ e ∈ es, e.2.depth ≤ n) :
    depth.depthEntries es ≤ n := by
  induction es with
  | nil => exact Nat.zero_le n
  | cons f es ih =>
    obtain ⟨first, rest⟩ := List.forall_mem_cons.mp all
    exact Nat.max_le.mpr ⟨first, ih rest⟩

namespace Syntax

mutual

/-- A tree is no deeper than the syntax it is read from. It may be less deep, as a member named
twice is kept once. -/
theorem depth_json? : (s : Syntax) → {j : Json} → s.json? = some j → j.depth ≤ s.depth
  | .null, _, h | .bool _, _, h => by
    cases h
    exact Nat.le_refl 0
  | .number _, _, h | .string _, _, h => by
    obtain ⟨_, -, rfl⟩ := Option.map_eq_some_iff.mp h
    exact Nat.le_refl 0
  | .array items, _, h => by
    obtain ⟨js, read, rfl⟩ := Option.map_eq_some_iff.mp h
    exact Nat.succ_le_succ (depth_jsonItems items read)
  | .object members, _, h => by
    obtain ⟨es, read, rfl⟩ := Option.map_eq_some_iff.mp h
    refine Nat.succ_le_succ (depthEntries_le ?_)
    intro e mem
    have inside := depth_le_of_mem (Entries.mem_ofList mem)
    exact Nat.le_trans inside (depth_jsonMembers members read)

theorem depth_jsonItems : (items : List Syntax) → {js : List Json} →
    json?.jsonItems items = some js → Json.depth.depthItems js ≤ depth.depthItems items
  | [], _, h => by
    cases h
    exact Nat.le_refl 0
  | s :: rest, _, h => by
    rw [json?.jsonItems] at h
    split at h
    · next j js first others =>
      cases h
      have head := depth_json? s first
      have tail := depth_jsonItems rest others
      rw [Json.depth.depthItems, depth.depthItems]
      omega
    · cases h

theorem depth_jsonMembers : (members : List (StringToken × Syntax)) →
    {es : List (String × Json)} → json?.jsonMembers members = some es →
    Json.depth.depthEntries es ≤ depth.depthMembers members
  | [], _, h => by
    cases h
    exact Nat.le_refl 0
  | (name, s) :: rest, _, h => by
    rw [json?.jsonMembers] at h
    split at h
    · next n j es _ first others =>
      cases h
      have head := depth_json? s first
      have tail := depth_jsonMembers rest others
      rw [Json.depth.depthEntries, depth.depthMembers]
      omega
    · cases h

end

end Syntax

end Json

/-- The edges of a tree: a block is plugged into another, or follows it. -/
def Block.Edge {β : Type} (b c : Block β) : Prop :=
  (∃ slot, b.input? slot = some c) ∨ b.next = some c

namespace Document

/-- The nodes that reading a node comes to next. -/
def Plugs (node inner : Json) : Prop :=
  ∃ connection, Connects node connection ∧ plug? connection = some inner

theorem Connects.depth_lt {node connection : Json} (h : Connects node connection) :
    connection.depth < node.depth := by
  cases h with
  | slot _ given mem =>
    have outer := Json.depth_member? (Json.member?_of_given? given)
    exact Nat.lt_trans (Nat.lt_succ_of_le (Json.depth_le_of_mem mem)) outer
  | next given => exact Json.depth_member? (Json.member?_of_given? given)

theorem Plugs.depth_le {node inner : Json} (h : Plugs node inner) :
    inner.depth + 2 ≤ node.depth := by
  obtain ⟨connection, connects, plugged⟩ := h
  obtain ⟨name, member⟩ := member?_of_plug? plugged
  have outer := connects.depth_lt
  have inside := Json.depth_member? member
  omega

theorem RootOf.depth_le {document node : Json} (root : RootOf document node) :
    node.depth ≤ document.depth := by
  have single : node.depth < (Json.array [node]).depth := by
    simp [Json.depth, Json.depth.depthItems]
  cases root with
  | block => exact Nat.le_refl _
  | listed _ blocks =>
    have outer := Json.depth_member? blocks
    omega
  | workspace _ blocks items =>
    have outer := Json.depth_member? blocks
    have inside := Json.depth_member? items
    omega

section

variable {β : Type} {registry : Registry β} {path : Path}

theorem connection_of_mem_slotEntries {key : String} {slots : List (String × Json)}
    {bs : List (String × Block β)} (ok : slotEntries registry path key slots = .ok bs)
    {e : String × Block β} (mem : e ∈ bs) :
    ∃ name c there, (name, c) ∈ slots ∧ connection registry there c = .ok (some e.2) := by
  induction slots generalizing bs with
  | nil =>
    cases ok
    cases mem
  | cons f rest ih =>
    obtain ⟨slot, c⟩ := f
    obtain ⟨x, others, first, read, rfl⟩ := slotEntries_cons_ok_iff.mp ok
    obtain here | mem := List.mem_append.mp mem
    · obtain ⟨b, rfl, rfl⟩ := Option.map_eq_some_iff.mp (Option.mem_toList.mp here)
      exact ⟨slot, c, _, List.mem_cons_self, first⟩
    · obtain ⟨name, c, there, mem, plugged⟩ := ih read mem
      exact ⟨name, c, there, List.mem_cons_of_mem _ mem, plugged⟩

theorem connects_of_mem_sectionOf {key : String} (key_eq : key = "inputs" ∨ key = "values")
    {es : List (String × Json)} {bs : List (String × Block β)}
    (read : sectionOf registry path key es = .ok bs) {e : String × Block β} (mem : e ∈ bs) :
    ∃ c there, Connects (.object es) c ∧ connection registry there c = .ok (some e.2) := by
  have means := sectionOf_ok_iff.mp read
  cases given : (Json.object es).given? key with
  | none =>
    rw [given] at means
    cases means
    cases mem
  | some j =>
    rw [given] at means
    obtain ⟨slots, rfl, read⟩ := means
    obtain ⟨name, c, there, mem, plugged⟩ := connection_of_mem_slotEntries read mem
    exact ⟨c, there, .slot key_eq given mem, plugged⟩

theorem connects_of_nextOf {es : List (String × Json)} {b : Block β}
    (read : nextOf registry path es = .ok (some b)) :
    ∃ c there, Connects (.object es) c ∧ connection registry there c = .ok (some b) := by
  have means := nextOf_ok_iff.mp read
  cases given : (Json.object es).given? "next" with
  | none =>
    rw [given] at means
    cases means
  | some c =>
    rw [given] at means
    exact ⟨c, _, .next given, means⟩

/-- Along an edge of a tree, the node of the one block is plugged into that of the other. -/
theorem plugs_of_edge {node : Json} {b c : Block β} (ok : block registry path node = .ok b)
    (edge : b.Edge c) : ∃ inner there, Plugs node inner ∧ block registry there inner = .ok c := by
  obtain ⟨es, h, inputs, values, next, rfl, -, plugged, given, follows, rfl⟩ := block_ok_iff.mp ok
  have connected : ∃ x there, Connects (.object es) x ∧
      connection registry there x = .ok (some c) := by
    obtain ⟨slot, found⟩ | rfl := edge
    · obtain mem | mem := Entries.mem_putAll (Entries.mem_of_value? found)
      · exact connects_of_mem_sectionOf (.inr rfl) given mem
      · exact connects_of_mem_sectionOf (.inl rfl) plugged (Entries.mem_ofList mem)
    · exact connects_of_nextOf follows
  obtain ⟨x, there, connects, read⟩ := connected
  have means := (connection_ok_iff.mp read).2
  cases inside : plug? x with
  | none =>
    rw [inside] at means
    cases means
  | some inner =>
    rw [inside] at means
    obtain ⟨d, read, eq⟩ := means
    cases eq
    exact ⟨inner, there, ⟨x, connects, inside⟩, read⟩

/-- A path of blocks needs two levels for each but the last, and one for that. -/
theorem path_le_depth {node : Json} {b : Block β} (ok : block registry path node = .ok b)
    {bs : List (Block β)} (chain : List.IsChain Block.Edge (b :: bs)) :
    2 * bs.length + 1 ≤ node.depth := by
  induction bs generalizing b node path with
  | nil =>
    obtain ⟨es, h, inputs, values, next, rfl, -⟩ := block_ok_iff.mp ok
    exact Nat.le_add_left 1 _
  | cons c bs ih =>
    obtain ⟨edge, chain⟩ := List.isChain_cons_cons.mp chain
    obtain ⟨inner, there, plugs, read⟩ := plugs_of_edge ok edge
    have below := ih read chain
    have levels := plugs.depth_le
    rw [List.length_cons]
    omega

/-- Reading goes down two levels with each node it comes to, whether or not it succeeds. -/
theorem nodes_le_depth {node : Json} {nodes : List Json}
    (chain : List.IsChain Plugs (node :: nodes)) : 2 * nodes.length ≤ node.depth := by
  induction nodes generalizing node with
  | nil => exact Nat.zero_le _
  | cons inner nodes ih =>
    obtain ⟨plugs, chain⟩ := List.isChain_cons_cons.mp chain
    have below := ih chain
    have levels := plugs.depth_le
    rw [List.length_cons]
    omega

end

/-- Something read that, if it fails, does not fail for being nested too deep. -/
def Unnested {α : Type} (x : Except ParseError α) : Prop :=
  ∀ path depth limit, x ≠ .error (.malformed path (.tooDeep depth limit))

@[simp] theorem unnested_ok {α : Type} (a : α) : Unnested (.ok a) := by
  simp [Unnested]

@[simp] theorem unnested_error_iff {α : Type} {e : ParseError} :
    Unnested (.error e : Except ParseError α) ↔
      ∀ path depth limit, e ≠ .malformed path (.tooDeep depth limit) := by
  simp [Unnested]

theorem Unnested.bind {α γ : Type} {x : Except ParseError α} {f : α → Except ParseError γ}
    (h : Unnested x) (k : ∀ a, Unnested (f a)) : Unnested (x >>= f) := by
  cases x with
  | ok a => exact k a
  | error e => exact unnested_error_iff.mpr (unnested_error_iff.mp h)

section

variable {β : Type} (registry : Registry β)

theorem readKind_unnested (path : Path) (es : Entries Json) :
    Unnested (readKind registry path es) := by
  unfold readKind
  split
  · split <;> simp
  · simp
  · simp

theorem readId_unnested (path : Path) (es : Entries Json) : Unnested (readId path es) := by
  unfold readId
  split <;> simp

theorem readFields_unnested (path : Path) (es : Entries Json) : Unnested (readFields path es) := by
  unfold readFields
  split <;> simp

theorem readMutation_unnested (path : Path) (item : Json) : Unnested (readMutation path item) := by
  unfold readMutation
  split
  · next es =>
    dsimp only
    split
    all_goals
      refine Unnested.bind (by simp) fun domain => ?_
      split <;> simp
  · simp

theorem readMutationItems_unnested (path : Path) (index : Nat) (items : List Json) :
    Unnested (readMutationItems path index items) := by
  induction items generalizing index with
  | nil => exact unnested_ok []
  | cons item items ih =>
    refine (readMutation_unnested _ item).bind fun m => ?_
    exact (ih (index + 1)).bind fun ms => unnested_ok _

theorem readMutations_unnested (path : Path) (es : Entries Json) :
    Unnested (readMutations path es) := by
  unfold readMutations
  dsimp only
  split
  · exact unnested_ok _
  · exact unnested_ok _
  · exact (readMutationItems_unnested path 0 _).bind fun listed => unnested_ok _
  · exact Unnested.bind (by simp) fun listed => unnested_ok _

mutual

/-- Nesting is no fault of a decoded document. -/
theorem block_unnested (path : Path) : (node : Json) → Unnested (block registry path node)
  | .object es => by
    refine (readKind_unnested registry path es).bind fun _ => ?_
    refine (readId_unnested path es).bind fun _ => ?_
    refine (readFields_unnested path es).bind fun _ => ?_
    refine (sectionOf_unnested path "inputs" es).bind fun _ => ?_
    refine (sectionOf_unnested path "values" es).bind fun _ => ?_
    refine (readMutations_unnested path es).bind fun _ => ?_
    exact (nextOf_unnested path es).bind fun _ => unnested_ok _
  | .null | .bool _ | .number _ | .string _ | .array _ => by simp [block]

theorem sectionOf_unnested (path : Path) (key : String) : (es : List (String × Json)) →
    Unnested (sectionOf registry path key es)
  | [] => unnested_ok []
  | (k, v) :: rest => by
    rw [sectionOf]
    split
    · exact slots_unnested path key v
    · exact sectionOf_unnested path key rest

theorem slots_unnested (path : Path) (key : String) : (j : Json) →
    Unnested (slots registry path key j)
  | .null => unnested_ok []
  | .object es => slotEntries_unnested path key es
  | .bool _ | .number _ | .string _ | .array _ => by simp [slots]

theorem slotEntries_unnested (path : Path) (key : String) : (es : List (String × Json)) →
    Unnested (slotEntries registry path key es)
  | [] => unnested_ok []
  | (slot, v) :: rest => by
    rw [slotEntries]
    refine (connection_unnested _ v).bind fun plugged => ?_
    refine (slotEntries_unnested path key rest).bind fun others => ?_
    cases plugged <;> exact unnested_ok _

theorem nextOf_unnested (path : Path) : (es : List (String × Json)) →
    Unnested (nextOf registry path es)
  | [] => unnested_ok none
  | (k, v) :: rest => by
    rw [nextOf]
    split
    · split
      · exact unnested_ok none
      · exact connection_unnested _ v
    · exact nextOf_unnested path rest

theorem connection_unnested (path : Path) : (j : Json) → Unnested (connection registry path j)
  | .object es => plugged_unnested path (plugName es) es
  | .null | .bool _ | .number _ | .string _ | .array _ => by simp [connection]

theorem plugged_unnested (path : Path) (name : String) : (es : List (String × Json)) →
    Unnested (plugged registry path name es)
  | [] => unnested_ok none
  | (k, v) :: rest => by
    rw [plugged]
    split
    · split
      · exact unnested_ok none
      · exact (block_unnested path v).bind fun b => unnested_ok (some b)
    · exact plugged_unnested path name rest

end

theorem rootNode_unnested (document : Json) : Unnested (rootNode document) := by
  have single (items : List Json) (base : String) : Unnested (rootNode.single items base) := by
    unfold rootNode.single
    split <;> simp
  unfold rootNode
  split
  · split
    · simp
    · split
      · simp
      · exact single _ _
      · split
        · exact single _ _
        · simp
        · simp
      · simp
  · simp

theorem build_unnested (document : Json) : Unnested (build registry document) :=
  (rootNode_unnested document).bind fun root => block_unnested registry root.2 root.1

/-- A text is refused for its nesting before it is read, or not at all. -/
theorem parse_tooDeep_iff {text : String} :
    (∃ path depth limit,
      parse registry text = .error (.malformed path (.tooDeep depth limit))) ↔
      1024 < Nesting.depth text.toList := by
  unfold parse
  constructor
  · rintro ⟨path, depth, limit, refused⟩
    dsimp only at refused
    split at refused
    · assumption
    · split at refused
      · cases refused
      · exact absurd refused (build_unnested registry _ path depth limit)
  · intro deep
    exact ⟨_, _, _, if_pos deep⟩

theorem decoded_of_parse {text : String} {root : Block β} (ok : parse registry text = .ok root) :
    Nesting.depth text.toList ≤ 1024 ∧
      ∃ document, Json.ofNestedText? text = some document ∧ build registry document = .ok root := by
  unfold parse at ok
  dsimp only at ok
  split at ok
  · cases ok
  · next shallow =>
    split at ok
    · cases ok
    · next document decoded => exact ⟨Nat.le_of_not_lt shallow, document, decoded, ok⟩

end

/-- A decoded document is no deeper than the scan of its text says. -/
theorem depth_le_of_decoded {text : String} {document : Json}
    (decoded : Json.ofNestedText? text = some document) :
    document.depth ≤ Nesting.depth text.toList := by
  obtain ⟨s, read, json⟩ := Option.bind_eq_some_iff.mp decoded
  have written := Json.Syntax.written_of_ofText? read
  rw [written.nesting_depth]
  exact Json.Syntax.depth_json? s json

/-- The bracket scan of a JSON text finds how deep its arrays and objects nest, whatever its
strings hold, so a JSON text is refused for its nesting exactly if it nests more than 1024 deep.
In a text that is not, reading comes through at most 513 nodes on its way to any node, the last of
which may be no block, and a tree that is read has at most 512 blocks on each path from its
root. -/
theorem nesting_limit_bounds_the_tree {β : Type} (registry : Registry β) (text : String) :
    (∀ s, Json.Syntax.Written text.toList s →
      Nesting.depth text.toList = s.depth ∧
      ((∃ path depth limit,
        parse registry text = .error (.malformed path (.tooDeep depth limit))) ↔ 1024 < s.depth) ∧
      (1024 < s.depth →
        parse registry text = .error (.malformed { base := "$" } (.tooDeep s.depth 1024)))) ∧
    (∀ document root, Nesting.depth text.toList ≤ 1024 → Json.ofNestedText? text = some document →
      RootOf document root → ∀ nodes, List.IsChain Plugs (root :: nodes) →
        (root :: nodes).length ≤ 513) ∧
    ∀ root, parse registry text = .ok root →
      ∀ path, List.IsChain Block.Edge (root :: path) → (root :: path).length ≤ 512 := by
  refine ⟨?_, ?_, ?_⟩
  · intro s written
    have depth := written.nesting_depth
    refine ⟨depth, ?_, ?_⟩
    · rw [parse_tooDeep_iff, depth]
    · intro deep
      rw [← depth] at deep ⊢
      exact if_pos deep
  · intro document root shallow decoded rooted nodes chain
    have inner := depth_le_of_decoded decoded
    have outer := rooted.depth_le
    have levels := nodes_le_depth chain
    rw [List.length_cons]
    omega
  · intro root ok path chain
    obtain ⟨shallow, document, decoded, built⟩ := decoded_of_parse registry ok
    obtain ⟨⟨node, there⟩, found, read⟩ := bind_eq_ok_iff.mp built
    have inner := depth_le_of_decoded decoded
    have outer := (rootNode_ok_iff.mp ⟨there, found⟩).depth_le
    have levels := path_le_depth read chain
    rw [List.length_cons]
    omega

/-- A text with brackets, quotes and backslashes in its strings and names, and with brackets that
only nest in a member nothing is read from. It nests five deep, and a path in its tree has two
blocks. -/
theorem brackets_in_strings_do_not_count :
    let text : String :=
      "\x7b\"type\": \"log_tag\", \"fields\": \x7b\"KEY\": \"]\\\"[\\\\\"\x7d, " ++
      "\"\x7d[\\\\\": [[[[\"\\u005b\"]]]], " ++
      "\"next\": \x7b\"block\": \x7b\"type\": \"logic_null\"\x7d\x7d\x7d"
    (∃ s, Json.Syntax.Written text.toList s ∧ s.depth = 5 ∧ Nesting.depth text.toList = 5 ∧
      ¬ ∃ path depth limit,
        parse Registry.standard text = .error (.malformed path (.tooDeep depth limit))) ∧
    ∃ root last, parse Registry.standard text = .ok root ∧ root.next = some last ∧
      [root, last].length ≤ 512 := by
  intro text
  have bounds := nesting_limit_bounds_the_tree Registry.standard text
  have read : (Json.Syntax.ofText? text).map Json.Syntax.depth = some 5 := by decide +kernel
  have built : ((parse Registry.standard text).toOption.bind Block.next).isSome := by
    decide +kernel
  refine ⟨?_, ?_⟩
  · obtain ⟨s, read, deep⟩ := Option.map_eq_some_iff.mp read
    have written := Json.Syntax.written_of_ofText? read
    obtain ⟨depth, refused, -⟩ := bounds.1 s written
    refine ⟨s, written, deep, depth.trans deep, ?_⟩
    rw [refused]
    omega
  · obtain ⟨last, found⟩ := Option.isSome_iff_exists.mp built
    obtain ⟨root, ok, next⟩ := Option.bind_eq_some_iff.mp found
    cases parsed : parse Registry.standard text with
    | error e =>
      rw [parsed] at ok
      cases ok
    | ok b =>
      rw [parsed] at ok
      cases ok
      have chain : List.IsChain Block.Edge [root, last] := .cons_cons (.inr next) (.singleton last)
      exact ⟨root, last, rfl, next, bounds.2.2 root parsed [last] chain⟩

end Document

end BlockScript
