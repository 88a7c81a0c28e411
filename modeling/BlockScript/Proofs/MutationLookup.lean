import BlockScript.Proofs.DocumentReading
/-!
Looking up a mutation, from the document.

A node configures its block in two places: in a list of mutations, each with a domain, and in an
extra state, which belongs to the default domain. `Configures` says of the node alone which of them
decides a name. The block that is read from the node answers accordingly.
-/

namespace BlockScript.Document

variable {β : Type} {registry : Registry β}

/-- The domain of an item in the list of mutations. -/
def itemDomain? (item : Json) : Option String :=
  match item.given? "domain" with
  | none => some Mutation.defaultDomain
  | some j => j.asString?

/-- An item that is about a name in a domain. -/
def About (domain name : String) (item : Json) : Prop :=
  itemDomain? item = some domain ∧ (item.member? "name").bind Json.asString? = some name

instance (domain name : String) : DecidablePred (About domain name) :=
  fun _ => inferInstanceAs (Decidable (_ ∧ _))

def itemValue (item : Json) : Json :=
  (item.member? "value").getD .null

/-- The items in the list of mutations of a node, none if it has no list. -/
def listedItems (node : Json) : List Json :=
  match node.given? "mutations" with
  | some (.array items) => items
  | _ => []

/-- What a node sets a name in a domain to. The first item about it decides. If there is none, the
extra state decides the names of the default domain: one entry each, and the whole of a state that
has no entries. -/
inductive Configures (node : Json) (domain name : String) : Json → Prop
  | item {before after : List Json} {item : Json}
      (listed : listedItems node = before ++ item :: after)
      (first : ∀ earlier ∈ before, ¬ About domain name earlier) (about : About domain name item) :
      Configures node domain name (itemValue item)
  | entry {state : List (String × Json)} {v : Json}
      (unlisted : ∀ item ∈ listedItems node, ¬ About domain name item)
      (default : domain = Mutation.defaultDomain)
      (extra : node.given? "extraState" = some (.object state))
      (found : Entries.value? name state = some v) : Configures node domain name v
  | whole {v : Json} (unlisted : ∀ item ∈ listedItems node, ¬ About domain name item)
      (default : domain = Mutation.defaultDomain) (extra : node.given? "extraState" = some v)
      (other : ∀ state, v ≠ .object state) (named : name = "extraState") :
      Configures node domain name v

/-- The same in two steps, of which the second one looks at the extra state only. -/
def itemSetting? (node : Json) (domain name : String) : Option Json :=
  ((listedItems node).find? (About domain name ·)).map itemValue

def stateSetting? (extra : Option Json) (domain name : String) : Option Json :=
  if domain = Mutation.defaultDomain then
    match extra with
    | none => none
    | some (.object state) => Entries.value? name state
    | some j => if name = "extraState" then some j else none
  else none

theorem itemSetting?_eq_some_iff {node v : Json} {domain name : String} :
    itemSetting? node domain name = some v ↔ ∃ before item after,
      listedItems node = before ++ item :: after ∧
      (∀ earlier ∈ before, ¬ About domain name earlier) ∧ About domain name item ∧
      itemValue item = v := by
  simp only [itemSetting?, Option.map_eq_some_iff, List.find?_eq_some_iff_append, decide_eq_true_eq,
    Bool.not_eq_true', decide_eq_false_iff_not]
  constructor
  · rintro ⟨item, ⟨about, before, after, listed, first⟩, eq⟩
    exact ⟨before, item, after, listed, first, about, eq⟩
  · rintro ⟨before, item, after, listed, first, about, eq⟩
    exact ⟨item, ⟨about, before, after, listed, first⟩, eq⟩

theorem itemSetting?_eq_none_iff {node : Json} {domain name : String} :
    itemSetting? node domain name = none ↔
      ∀ item ∈ listedItems node, ¬ About domain name item := by
  simp [itemSetting?]

theorem stateSetting?_eq_some_iff {extra : Option Json} {domain name : String} {v : Json} :
    stateSetting? extra domain name = some v ↔ domain = Mutation.defaultDomain ∧
      ((∃ state, extra = some (.object state) ∧ Entries.value? name state = some v) ∨
        extra = some v ∧ (∀ state, v ≠ .object state) ∧ name = "extraState") := by
  unfold stateSetting?
  by_cases default : domain = Mutation.defaultDomain
  · rw [if_pos default]
    split
    · simp
    · next state =>
      simp only [default, Option.some.injEq, Json.object.injEq, exists_eq_left', true_and,
        iff_self_or]
      rintro ⟨rfl, other, -⟩
      exact absurd rfl (other state)
    · next j other =>
      have entries (state : List (String × Json)) : j ≠ .object state := other state
      by_cases named : name = "extraState" <;> grind
  · simp [default]

theorem configures_iff {node v : Json} {domain name : String} :
    Configures node domain name v ↔ ((itemSetting? node domain name).or
      (stateSetting? (node.given? "extraState") domain name)) = some v := by
  rw [Option.or_eq_some_iff, itemSetting?_eq_some_iff, itemSetting?_eq_none_iff,
    stateSetting?_eq_some_iff]
  constructor
  · intro h
    cases h with
    | item listed first about => exact .inl ⟨_, _, _, listed, first, about, rfl⟩
    | entry unlisted default extra found =>
      exact .inr ⟨unlisted, default, .inl ⟨_, extra, found⟩⟩
    | whole unlisted default extra other named =>
      exact .inr ⟨unlisted, default, .inr ⟨extra, other, named⟩⟩
  · rintro (⟨_, _, _, listed, first, about, rfl⟩ | ⟨unlisted, default, ⟨_, extra, found⟩ |
      ⟨extra, other, named⟩⟩)
    · exact .item listed first about
    · exact .entry unlisted default extra found
    · exact .whole unlisted default extra other named

theorem MutationOf.itemDomain? {item : Json} {m : Mutation} (h : MutationOf item m) :
    itemDomain? item = some m.domain := by
  have domain := h.domain
  unfold Document.itemDomain?
  cases given : item.given? "domain" with
  | none =>
    rw [given] at domain
    exact congrArg some domain.symm
  | some j =>
    rw [given] at domain
    rw [show j = .string m.domain from domain]
    rfl

theorem MutationOf.about_iff {item : Json} {m : Mutation} (h : MutationOf item m)
    (domain name : String) : About domain name item ↔ m.domain = domain ∧ m.name = name := by
  simp [About, h.itemDomain?, h.name, Json.asString?]

/-- The first mutation about a name is that of the first item about it. -/
theorem find?_listed {items : List Json} {ms : List Mutation}
    (all : List.Forall₂ MutationOf items ms) (domain name : String) :
    (ms.find? fun m => m.domain == domain && m.name == name).map Mutation.value =
      (items.find? (About domain name ·)).map itemValue := by
  induction all with
  | nil => rfl
  | @cons item m items ms first _ ih =>
    by_cases about : About domain name item
    · obtain ⟨rfl, rfl⟩ := (first.about_iff domain name).mp about
      simp [about, first.value, itemValue]
    · have other : (m.domain == domain && m.name == name) = false := by
        simpa [first.about_iff] using about
      simp only [List.find?_cons, other, about, decide_false, ih]

theorem find?_entries (state : List (String × Json)) (domain name : String) :
    ((state.map fun e => (⟨Mutation.defaultDomain, e.1, e.2⟩ : Mutation)).find? fun m =>
        m.domain == domain && m.name == name).map Mutation.value =
      if domain = Mutation.defaultDomain then Entries.value? name state else none := by
  induction state with
  | nil => simp [Entries.value?]
  | cons e state ih =>
    obtain ⟨key, v⟩ := e
    by_cases default : domain = Mutation.defaultDomain
    · by_cases eq : key = name
      · simp [default, eq, Entries.value?]
      · simpa [default, eq, Entries.value?] using ih
    · have other : ¬ Mutation.defaultDomain = domain := Ne.symm default
      simp [default, other]

theorem find?_extra {extra : Option Json} {ms : List Mutation} (means : Means ExtraOf [] extra ms)
    (domain name : String) :
    (ms.find? fun m => m.domain == domain && m.name == name).map Mutation.value =
      stateSetting? extra domain name := by
  cases extra with
  | none =>
    rw [show ms = [] from means]
    simp [stateSetting?]
  | some j =>
    have read : ExtraOf j ms := means
    cases read with
    | entries state => exact find?_entries state domain name
    | whole other =>
      unfold stateSetting?
      by_cases default : domain = Mutation.defaultDomain
      · by_cases named : name = "extraState"
        · simp [default, named]
        · simp [default, named, Ne.symm named]
      · simp [default, Ne.symm default]

/-- What a node says of its block answers as the node configures it. -/
theorem HeaderOf.mutation?_eq {node : Json} {h : Header β} (header : HeaderOf registry node h)
    (domain name : String) :
    h.mutation? domain name =
      (itemSetting? node domain name).or
        (stateSetting? (node.given? "extraState") domain name) := by
  obtain ⟨listed, extra, reading, state, eq⟩ := header.mutations
  have all : List.Forall₂ MutationOf (listedItems node) listed := by
    unfold listedItems
    cases given : node.given? "mutations" with
    | none =>
      rw [given] at reading
      rw [show listed = [] from reading]
      exact .nil
    | some j =>
      rw [given] at reading
      obtain ⟨items, rfl, all⟩ := reading
      exact all
  rw [Header.mutation?, eq, List.find?_append, Option.map_or, find?_listed all, find?_extra state,
    itemSetting?]

/-- The items in the list of mutations that belong to the default domain. -/
def defaultItems (node : Json) : List Json :=
  (listedItems node).filter (itemDomain? · = some Mutation.defaultDomain)

/-- Items of other domains are not looked at. -/
theorem itemSetting?_default (node : Json) (name : String) :
    itemSetting? node Mutation.defaultDomain name =
      ((defaultItems node).find? (About Mutation.defaultDomain name ·)).map itemValue := by
  simp only [itemSetting?, defaultItems, List.find?_filter]
  congr 2
  funext item
  by_cases about : About Mutation.defaultDomain name item
  · simp [about, about.1]
  · simp [about]

theorem headerOf_of_block_ok {path : Path} {node : Json} {b : Block β}
    (ok : block registry path node = .ok b) : HeaderOf registry node b.header := by
  obtain ⟨es, h, inputs, values, next, -, header, -, -, -, rfl⟩ := block_ok_iff.mp ok
  exact header

/-- A valid block is read, and it answers every look-up as its node configures it; without a domain
the default one is meant. An item of the default domain decides its name whatever the extra state
is. Blocks that agree on the items of the default domain and on the extra state have the same
counts and flags. -/
theorem lookup_follows_the_document {β : Type} {registry : Registry β} {node : Json}
    (valid : ValidBlock registry node) (path : Path) :
    ∃ b, block registry path node = .ok b ∧
      (∀ (domain : Option String) name v,
        b.header.mutation? (domain.getD Mutation.defaultDomain) name = some v ↔
          Configures node (domain.getD Mutation.defaultDomain) name v) ∧
      ∀ other there c, block registry there other = .ok c →
        (listedItems other = listedItems node → ∀ name item, item ∈ listedItems node →
          About Mutation.defaultDomain name item →
          c.header.mutation? Mutation.defaultDomain name =
            b.header.mutation? Mutation.defaultDomain name) ∧
        (defaultItems other = defaultItems node →
          other.given? "extraState" = node.given? "extraState" → ∀ name,
          c.header.count name = b.header.count name ∧ c.header.flag name = b.header.flag name) := by
  obtain ⟨b, ok⟩ := valid.block_ok path
  have header := headerOf_of_block_ok ok
  refine ⟨b, ok, ?_, ?_⟩
  · intro domain name v
    rw [header.mutation?_eq, configures_iff]
  · intro other there c read
    have header' := headerOf_of_block_ok read
    refine ⟨?_, ?_⟩
    · intro same name item mem about
      have decided : itemSetting? node Mutation.defaultDomain name ≠ none := by
        rw [Ne, itemSetting?_eq_none_iff]
        intro unlisted
        exact unlisted item mem about
      obtain ⟨v, setting⟩ := Option.ne_none_iff_exists'.mp decided
      have setting' : itemSetting? other Mutation.defaultDomain name = some v := by
        rw [itemSetting?, same]
        exact setting
      rw [header.mutation?_eq, header'.mutation?_eq, setting, setting', Option.some_or,
        Option.some_or]
    · intro items extra name
      have same : c.header.mutation? Mutation.defaultDomain name =
          b.header.mutation? Mutation.defaultDomain name := by
        rw [header.mutation?_eq, header'.mutation?_eq, itemSetting?_default, itemSetting?_default,
          items, extra]
      exact ⟨by rw [Header.count, Header.count, same], by rw [Header.flag, Header.flag, same]⟩

/-- A join that is told its item count three times: in another domain, without a value, and in the
extra state. The item without a value wins in the default domain, and without the item of the other
domain the block still has no items. -/
theorem null_item_before_extra_state :
    let foreign : Json := .object
      [("domain", .string "ui"), ("name", .string "itemCount"), ("value", .number (.nat 9))]
    let bare : Json := .object [("domain", .null), ("name", .string "itemCount")]
    let node (items : List Json) : Json := .object [
      ("extraState", .object [("hint", .string "h"), ("itemCount", .number (.nat 3))]),
      ("mutations", .array items),
      ("type", .string "text_join")]
    let path : Path := ⟨"$", []⟩
    ValidBlock Registry.standard (node [foreign, bare]) ∧
    ∃ b, block Registry.standard path (node [foreign, bare]) = .ok b ∧
      b.header.mutation? "ui" "itemCount" = some (.number (.nat 9)) ∧
      b.header.mutation? "config" "itemCount" = some .null ∧
      b.header.mutation? "config" "hint" = some (.string "h") ∧
      ∃ c, block Registry.standard path (node [bare]) = .ok c ∧
        c.header.count "itemCount" = b.header.count "itemCount" := by
  intro foreign bare node path
  obtain ⟨_, read⟩ : ∃ b, block Registry.standard path (node [foreign, bare]) = .ok b := ⟨_, rfl⟩
  obtain ⟨c, read'⟩ : ∃ c, block Registry.standard path (node [bare]) = .ok c := ⟨_, rfl⟩
  have valid := validBlock_of_block_ok read
  obtain ⟨b, ok, answers, others⟩ := lookup_follows_the_document valid path
  have apart : ¬ About Mutation.defaultDomain "itemCount" foreign := by decide
  refine ⟨valid, b, ok, ?_, ?_, ?_, c, read', ?_⟩
  · exact (answers (some "ui") "itemCount" _).mpr
      (.item (show listedItems (node [foreign, bare]) = [] ++ foreign :: [bare] from rfl)
        (by simp) (by decide))
  · exact (answers none "itemCount" _).mpr
      (.item (show listedItems (node [foreign, bare]) = [foreign] ++ bare :: [] from rfl)
        (by simpa using apart) (by decide))
  · exact (answers none "hint" _).mpr (.entry (by decide) rfl rfl rfl)
  · exact ((others _ _ c read').2 rfl rfl "itemCount").1

end BlockScript.Document
