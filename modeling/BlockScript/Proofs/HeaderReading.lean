import BlockScript.Document
import BlockScript.Proofs.DocumentGrammar
/-!
Reading what a node says of its block.

Each member is read as the grammar says, whatever the path: the path is for messages only. So a
header is read exactly from the nodes whose members have the right shape.
-/

namespace BlockScript.Document

variable {β : Type} {registry : Registry β} {path : Path}

theorem bind_eq_ok_iff {ε α γ : Type} {x : Except ε α} {f : α → Except ε γ} {c : γ} :
    (x >>= f) = .ok c ↔ ∃ a, x = .ok a ∧ f a = .ok c := by
  cases x <;> simp [bind, Except.bind]

theorem readKind_ok_iff {es : Entries Json} {kind : String} {behavior : β} :
    readKind registry path es = .ok (kind, behavior) ↔
      Entries.value? "type" es = some (.string kind) ∧
        registry.behavior? kind = some behavior := by
  unfold readKind
  split
  · next k given =>
    split
    · next b known =>
      simp only [Except.ok.injEq, Prod.mk.injEq, given, Option.some.injEq, Json.string.injEq]
      constructor
      · rintro ⟨rfl, rfl⟩
        exact ⟨rfl, known⟩
      · rintro ⟨rfl, known'⟩
        exact ⟨rfl, by simpa [known] using known'⟩
    · next unknown =>
      simp only [reduceCtorEq, given, Option.some.injEq, Json.string.injEq, false_iff]
      rintro ⟨rfl, known⟩
      simp [unknown] at known
  · next other given =>
    simp only [reduceCtorEq, given, Option.some.injEq, false_iff]
    rintro ⟨rfl, -⟩
    exact other kind rfl
  · next given => simp [given]

theorem means_given?_iff {α : Type} {reads : Json → α → Prop} {default x : α} {name : String}
    {es : Entries Json} :
    Means reads default ((Json.object es).given? name) x ↔
      match Entries.value? name es with
      | none | some .null => x = default
      | some j => reads j x := by
  have given : (Json.object es).given? name =
      (Entries.value? name es).filter fun v => !v.isNull := rfl
  rw [given]
  cases Entries.value? name es with
  | none => rfl
  | some j => cases j <;> rfl

theorem readId_ok_iff {es : Entries Json} {id : Option String} :
    readId path es = .ok id ↔
      Means (fun j id => ∃ s, j = .string s ∧ id = some s) none
        ((Json.object es).given? "id") id := by
  rw [means_given?_iff, readId]
  cases Entries.value? "id" es with
  | none => simp [eq_comm]
  | some j => cases j <;> simp [eq_comm]

theorem readFields_ok_iff {es fields : Entries Json} :
    readFields path es = .ok fields ↔
      Means (fun j fields => j = .object fields) [] ((Json.object es).given? "fields") fields := by
  rw [means_given?_iff, readFields]
  cases Entries.value? "fields" es with
  | none => simp [eq_comm]
  | some j => cases j <;> simp

/-- What is read of a mutation once its domain is known. -/
theorem mutationNamed_ok_iff {es : Entries Json} {domain : String} {m : Mutation} :
    (match Entries.value? "name" es with
      | some (.string name) =>
        .ok { domain, name, value := (Entries.value? "value" es).getD .null }
      | _ => .error (.malformed path .mutationUnnamed) : Except ParseError Mutation) = .ok m ↔
      Entries.value? "name" es = some (.string m.name) ∧ m.domain = domain ∧
        m.value = (Entries.value? "value" es).getD .null := by
  split
  · next name given =>
    rw [given]
    constructor
    · intro h
      cases h
      exact ⟨rfl, rfl, rfl⟩
    · rintro ⟨name_eq, rfl, value⟩
      simp only [Option.some.injEq, Json.string.injEq] at name_eq
      rw [name_eq, ← value]
  · next other =>
    simp only [reduceCtorEq, false_iff]
    rintro ⟨given, -⟩
    exact other m.name given

theorem readMutation_ok_iff {item : Json} {m : Mutation} :
    readMutation path item = .ok m ↔ MutationOf item m := by
  cases item with
  | object es =>
    have parts : MutationOf (.object es) m ↔
        Entries.value? "name" es = some (.string m.name) ∧
        Means (fun j d => j = .string d) Mutation.defaultDomain
          ((Json.object es).given? "domain") m.domain ∧
        m.value = (Entries.value? "value" es).getD .null :=
      ⟨fun h => ⟨h.name, h.domain, h.value⟩, fun h => ⟨h.1, h.2.1, h.2.2⟩⟩
    rw [parts, means_given?_iff, readMutation]
    cases Entries.value? "domain" es with
    | none => exact mutationNamed_ok_iff
    | some j =>
      cases j with
      | null => exact mutationNamed_ok_iff
      | string domain =>
        refine mutationNamed_ok_iff.trans ?_
        simp only [Json.string.injEq, eq_comm]
      | bool | number | array | object => simp [bind, Except.bind]
  | null | bool | number | string | array =>
    simp only [readMutation, reduceCtorEq, false_iff]
    intro h
    cases h.name

theorem readMutationItems_ok_iff {index : Nat} {items : List Json} {ms : List Mutation} :
    readMutationItems path index items = .ok ms ↔ List.Forall₂ MutationOf items ms := by
  induction items generalizing index ms with
  | nil => simp [readMutationItems, eq_comm]
  | cons item items ih =>
    simp only [readMutationItems, bind_eq_ok_iff, readMutation_ok_iff, ih, Except.ok.injEq,
      List.forall₂_cons_left_iff]
    constructor
    · rintro ⟨m, first, rest, others, rfl⟩
      exact ⟨m, rest, first, others, rfl⟩
    · rintro ⟨m, rest, first, others, rfl⟩
      exact ⟨m, first, rest, others, rfl⟩

theorem extraMutations_means (es : Entries Json) :
    Means ExtraOf [] ((Json.object es).given? "extraState") (extraMutations es) := by
  rw [means_given?_iff, extraMutations]
  cases Entries.value? "extraState" es with
  | none => rfl
  | some j =>
    cases j with
    | null => rfl
    | object state => exact .entries state
    | bool | number | string | array =>
      refine .whole ?_
      intro state eq
      cases eq

theorem readMutations_ok_iff {es : Entries Json} {ms : List Mutation} :
    readMutations path es = .ok ms ↔ ∃ listed extra,
      Means (fun j ms => ∃ items, j = .array items ∧ List.Forall₂ MutationOf items ms) []
        ((Json.object es).given? "mutations") listed ∧
      Means ExtraOf [] ((Json.object es).given? "extraState") extra ∧
      ms = listed ++ extra := by
  have read : readMutations path es = .ok ms ↔ ∃ listed,
      Means (fun j ms => ∃ items, j = .array items ∧ List.Forall₂ MutationOf items ms) []
        ((Json.object es).given? "mutations") listed ∧ ms = listed ++ extraMutations es := by
    simp only [means_given?_iff, readMutations]
    cases Entries.value? "mutations" es with
    | none => simp [bind, Except.bind, eq_comm]
    | some j =>
      cases j with
      | null => simp [bind, Except.bind, eq_comm]
      | array items =>
        simp only [bind_eq_ok_iff, readMutationItems_ok_iff]
        simp [eq_comm]
      | bool | number | string | object => simp [bind, Except.bind]
  rw [read]
  constructor
  · rintro ⟨listed, means, rfl⟩
    exact ⟨listed, _, means, extraMutations_means es, rfl⟩
  · rintro ⟨listed, extra, means, state, rfl⟩
    refine ⟨listed, means, ?_⟩
    have same : extra = extraMutations es := by
      refine state.unique ?_ (extraMutations_means es)
      intro j ms ns
      exact ExtraOf.unique
    rw [same]

theorem exists_mutationOf_iff {item : Json} : (∃ m, MutationOf item m) ↔ ValidMutation item := by
  constructor
  · rintro ⟨m, h⟩
    exact ⟨⟨m.name, h.name⟩, Means.exists_iff.mp ⟨m.domain, h.domain⟩⟩
  · rintro ⟨⟨name, named⟩, domains⟩
    obtain ⟨domain, means⟩ : ∃ domain, Means (fun j d => j = .string d) Mutation.defaultDomain
        (item.given? "domain") domain := Means.exists_iff.mpr domains
    exact ⟨⟨domain, name, (item.member? "value").getD .null⟩, named, means, rfl⟩

theorem exists_forall₂_iff {α γ : Type} {R : α → γ → Prop} {xs : List α} :
    (∃ ys, List.Forall₂ R xs ys) ↔ ∀ x ∈ xs, ∃ y, R x y := by
  induction xs with
  | nil => simp
  | cons x xs ih =>
    simp only [List.forall₂_cons_left_iff, List.forall_mem_cons, ← ih]
    constructor
    · rintro ⟨-, y, ys, first, rest, -⟩
      exact ⟨⟨y, first⟩, ys, rest⟩
    · rintro ⟨⟨y, first⟩, ys, rest⟩
      exact ⟨y :: ys, y, ys, first, rest, rfl⟩

/-- A node says something of its block if the members that do are in shape. -/
theorem exists_headerOf_iff {node : Json} :
    (∃ h, HeaderOf registry node h) ↔
      (∃ kind, node.member? "type" = some (.string kind) ∧ registry.contains kind) ∧
      (∀ j, node.given? "id" = some j → ∃ id, j = .string id) ∧
      (∀ j, node.given? "fields" = some j → ∃ fields, j = .object fields) ∧
      (∀ j, node.given? "mutations" = some j →
        ∃ items, j = .array items ∧ ∀ item ∈ items, ValidMutation item) := by
  -- What the mutations of a node say depends on its items alone.
  have items (j : Json) :
      (∃ ms items, j = .array items ∧ List.Forall₂ MutationOf items ms) ↔
        ∃ items, j = .array items ∧ ∀ item ∈ items, ValidMutation item := by
    simp only [← exists_mutationOf_iff, ← exists_forall₂_iff]
    constructor
    · rintro ⟨ms, items, rfl, all⟩
      exact ⟨items, rfl, ms, all⟩
    · rintro ⟨items, rfl, ms, all⟩
      exact ⟨ms, items, rfl, all⟩
  constructor
  · rintro ⟨h, header⟩
    have known : registry.contains h.kind = true := by
      rw [Registry.contains, header.behavior]
      rfl
    refine ⟨⟨h.kind, header.kind, known⟩, ?_, Means.exists_iff.mp ⟨h.fields, header.fields⟩, ?_⟩
    · intro j given
      obtain ⟨-, id, rfl, -⟩ := Means.exists_iff.mp ⟨h.id, header.id⟩ j given
      exact ⟨id, rfl⟩
    · obtain ⟨listed, -, means, -⟩ := header.mutations
      intro j given
      exact (items j).mp (Means.exists_iff.mp ⟨listed, means⟩ j given)
  · rintro ⟨⟨kind, kind_eq, known⟩, ids, objects, arrays⟩
    obtain ⟨behavior, behavior_eq⟩ := Option.isSome_iff_exists.mp known
    obtain ⟨id, id_means⟩ : ∃ id, Means (fun j id => ∃ s, j = .string s ∧ id = some s) none
        (node.given? "id") id := by
      rw [Means.exists_iff]
      intro j given
      obtain ⟨id, rfl⟩ := ids j given
      exact ⟨some id, id, rfl, rfl⟩
    obtain ⟨fields, fields_means⟩ : ∃ fields, Means (fun j fields => j = .object fields) []
        (node.given? "fields") fields := Means.exists_iff.mpr objects
    obtain ⟨listed, listed_means⟩ : ∃ listed,
        Means (fun j ms => ∃ items, j = .array items ∧ List.Forall₂ MutationOf items ms) []
          (node.given? "mutations") listed := by
      rw [Means.exists_iff]
      intro j given
      exact (items j).mpr (arrays j given)
    obtain ⟨extra, extra_means⟩ : ∃ extra,
        Means ExtraOf [] (node.given? "extraState") extra := by
      rw [Means.exists_iff]
      exact fun j _ => ExtraOf.exists j
    exact ⟨⟨kind, id, behavior, fields, listed ++ extra⟩, kind_eq, behavior_eq, id_means,
      fields_means, listed, extra, listed_means, extra_means, rfl⟩

end BlockScript.Document
