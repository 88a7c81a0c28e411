import BlockScript.Proofs.Composition
import BlockScript.Proofs.FirstFault
import BlockScript.Proofs.TreeHeight
/-!
Reading a document against a larger registry.

What is read from a node depends neither on where the node stands nor on kinds that nothing in it
names, so it stays the same when kinds are added. Of the checks made on the way, more kinds can
only turn out one sort differently: a kind that was unknown may be known. Whatever comes first
among the faults stays first unless it is such a one.
-/

namespace BlockScript

namespace Registry

variable {β : Type} {registry larger : Registry β}

/-- Every kind bound in one registry is bound in the other, to the same behaviour. -/
def Within (registry larger : Registry β) : Prop :=
  ∀ kind behavior, registry.behavior? kind = some behavior →
    larger.behavior? kind = some behavior

theorem Within.refl (registry : Registry β) : registry.Within registry :=
  fun _ _ bound => bound

theorem Within.contains (grows : registry.Within larger) {kind : String}
    (known : registry.contains kind = true) : larger.contains kind = true := by
  obtain ⟨behavior, bound⟩ := Option.isSome_iff_exists.mp known
  exact Option.isSome_iff_exists.mpr ⟨behavior, grows kind behavior bound⟩

/-- To bind a kind that a registry does not have alters nothing that it has. -/
theorem Within.register (grows : registry.Within larger) {kind : String}
    (fresh : registry.contains kind = false) (behavior : β) :
    registry.Within (larger.register kind behavior) := by
  intro other known bound
  have different : other ≠ kind := by
    rintro rfl
    rw [Registry.contains, bound] at fresh
    cases fresh
  exact (Entries.value?_put_of_ne different behavior larger.behaviors).trans
    (grows other known bound)

/-- Binds some kinds, one after the other. -/
def registerAll (registry : Registry β) (kinds : List (String × β)) : Registry β :=
  kinds.foldl (fun r e => r.register e.1 e.2) registry

theorem Within.registerAll (grows : registry.Within larger) {kinds : List (String × β)}
    (fresh : ∀ e ∈ kinds, registry.contains e.1 = false) :
    registry.Within (larger.registerAll kinds) := by
  induction kinds generalizing larger with
  | nil => exact grows
  | cons e kinds ih =>
    obtain ⟨first, rest⟩ := List.forall_mem_cons.mp fresh
    exact ih (grows.register first e.2) rest

end Registry

namespace Document

variable {β : Type} {registry larger : Registry β} {path there : Path}

theorem Means.imp {α : Type} {reads reads' : Json → α → Prop} {default x : α}
    {given : Option Json} (means : Means reads default given x)
    (each : ∀ j, given = some j → reads j x → reads' j x) : Means reads' default given x := by
  cases given with
  | none => exact means
  | some j => exact each j rfl means

theorem HeaderOf.within (grows : registry.Within larger) {node : Json} {h : Header β}
    (header : HeaderOf registry node h) : HeaderOf larger node h :=
  { header with behavior := grows h.kind h.behavior header.behavior }

/-- What is read from slots is read from others of the same names elsewhere, if that holds of each
connection. -/
theorem slotEntries_carried {key key' : String} {slots slots' : List (String × Json)}
    (each : List.Forall₂ (fun e e' => e.1 = e'.1 ∧
      ∀ x, connection registry (path.down (.slot key e.1)) e.2 = .ok x →
        connection larger (there.down (.slot key' e'.1)) e'.2 = .ok x) slots slots')
    {bs : List (String × Block β)} (ok : slotEntries registry path key slots = .ok bs) :
    slotEntries larger there key' slots' = .ok bs := by
  induction each generalizing bs with
  | nil => exact ok
  | @cons e e' rest rest' first others ih =>
    obtain ⟨slot, c⟩ := e
    obtain ⟨slot', c'⟩ := e'
    obtain ⟨rfl, carried⟩ := first
    obtain ⟨x, read, plugged, remaining, rfl⟩ := slotEntries_cons_ok_iff.mp ok
    exact slotEntries_cons_ok_iff.mpr ⟨x, read, carried x plugged, ih remaining, rfl⟩

theorem connection_carried {c : Json} {x : Option (Block β)}
    (inside : ∀ inner b, plug? c = some inner → block registry path inner = .ok b →
      block larger there inner = .ok b)
    (ok : connection registry path c = .ok x) : connection larger there c = .ok x := by
  obtain ⟨object, means⟩ := connection_ok_iff.mp ok
  refine connection_ok_iff.mpr ⟨object, means.imp ?_⟩
  rintro inner plugged ⟨b, read, rfl⟩
  exact ⟨b, inside inner b plugged read, rfl⟩

/-- A node that is read against a registry is read as the same block against a larger one, and
anywhere else in a document. -/
theorem block_carried (grows : registry.Within larger) {node : Json} {b : Block β}
    (ok : block registry path node = .ok b) (there : Path) : block larger there node = .ok b := by
  induction node using plugged_induction generalizing path there b with
  | step node ih =>
    obtain ⟨es, h, inputs, values, next, rfl, header, plugged, given, follows, rfl⟩ :=
      block_ok_iff.mp ok
    have connected {c : Json} (connects : Connects (.object es) c) {p q : Path}
        {x : Option (Block β)} (read : connection registry p c = .ok x) :
        connection larger q c = .ok x := by
      refine connection_carried ?_ read
      intro inner b eq inside
      exact ih c inner connects eq inside q
    have sections {key : String} (key_eq : key = "inputs" ∨ key = "values")
        {bs : List (String × Block β)} (read : sectionOf registry path key es = .ok bs) :
        sectionOf larger there key es = .ok bs := by
      refine sectionOf_ok_iff.mpr ((sectionOf_ok_iff.mp read).imp ?_)
      rintro j given ⟨slots, rfl, entries⟩
      refine ⟨slots, rfl, slotEntries_carried (List.forall₂_same.mpr ?_) entries⟩
      intro e mem
      exact ⟨rfl, fun x read => connected (.slot key_eq given mem) read⟩
    have successor : nextOf larger there es = .ok next := by
      refine nextOf_ok_iff.mpr ((nextOf_ok_iff.mp follows).imp ?_)
      intro c given read
      exact connected (.next given) read
    exact block_ok_iff.mpr ⟨es, h, inputs, values, next, rfl, header.within grows,
      sections (.inl rfl) plugged, sections (.inr rfl) given, successor, rfl⟩

/-- The blocks of a tree are of kinds that the registry has, and behave as it says. -/
theorem behavior?_of_block_ok {node : Json} {b d : Block β}
    (ok : block registry path node = .ok b) (inside : b.Contains d) :
    registry.behavior? d.kind = some d.header.behavior := by
  induction inside generalizing node path with
  | self b =>
    obtain ⟨es, h, inputs, values, next, -, header, -, -, -, rfl⟩ := block_ok_iff.mp ok
    exact header.behavior
  | input plugged _ ih =>
    obtain ⟨inner, there, -, read⟩ := plugs_of_edge ok (.inl ⟨_, plugged⟩)
    exact ih read
  | next follows _ ih =>
    obtain ⟨inner, there, -, read⟩ := plugs_of_edge ok (.inr follows)
    exact ih read

/-- A check turns out the same against a larger registry, unless it finds a kind unknown that the
larger one has. -/
theorem Visit.fault?_within (grows : registry.Within larger) (v : Visit) :
    v.fault? larger path = v.fault? registry path ∨
    ∃ kind, v.fault? registry path = some (.unknownKind kind (path.along v.steps)) ∧
      larger.contains kind = true := by
  obtain ⟨steps, check⟩ := v
  cases check with
  | block node check =>
    cases check with
    | hasKnownKind =>
      simp only [Visit.fault?, Check.fault?, BlockCheck.fault?]
      split
      · next kind typed =>
        cases known : registry.contains kind with
        | true => simp [grows.contains known]
        | false =>
          cases now : larger.contains kind with
          | true => exact .inr ⟨kind, rfl, now⟩
          | false => exact .inl rfl
      · exact .inl rfl
    | isObject | hasType | id | fields | slots | mutations => exact .inl rfl
  | connection c => exact .inl rfl
  | mutation item check => exact .inl rfl

/-- The first fault stays the first, unless it is a kind that the larger registry has. -/
theorem firstFault_within (grows : registry.Within larger) {visits : List Visit} {e : ParseError}
    (found : firstFault registry path visits = some e)
    (still : ∀ kind there, e = .unknownKind kind there → larger.contains kind = false) :
    firstFault larger path visits = some e := by
  induction visits with
  | nil => cases found
  | cons v visits ih =>
    rw [firstFault_cons] at found ⊢
    obtain same | ⟨kind, unknown, known⟩ := v.fault?_within grows
    · rw [same]
      cases fault : v.fault? registry path with
      | none =>
        rw [fault, Option.none_or] at found
        exact ih found
      | some e' =>
        rw [fault] at found
        exact found
    · rw [unknown, Option.some_or, Option.some.injEq] at found
      have absent := still kind _ found.symm
      rw [known] at absent
      cases absent

/-- A document is refused for the same fault against a larger registry. -/
theorem build_error_within (grows : registry.Within larger) {document : Json} {e : ParseError}
    (failed : build registry document = .error e)
    (still : ∀ kind there, e = .unknownKind kind there → larger.contains kind = false) :
    build larger document = .error e := by
  cases rooted : rootNode document with
  | error e' =>
    rw [build, rooted] at failed ⊢
    exact failed
  | ok found =>
    obtain ⟨root, path⟩ := found
    rw [← failure?_eq_some_iff, build_failure rooted] at failed ⊢
    exact firstFault_within grows failed still

/-- A text is read up to the tree of its document whatever the registry. -/
theorem parse_cases (text : String) :
    (∃ e, (∀ kind path, e ≠ .unknownKind kind path) ∧
      ∀ registry : Registry β, parse registry text = .error e) ∨
    ∃ document, ∀ registry : Registry β, parse registry text = build registry document := by
  by_cases deep : Nesting.limit < Nesting.depth text.toList
  · refine .inl ⟨_, ?_, fun registry => if_pos deep⟩
    intro kind path
    simp
  · cases decoded : Json.ofNestedText? text with
    | none =>
      refine .inl ⟨.notJson, ?_, ?_⟩
      · intro kind path
        simp
      · intro registry
        simp only [parse, if_neg deep, decoded]
    | some document =>
      refine .inr ⟨document, ?_⟩
      intro registry
      simp only [parse, if_neg deep, decoded]

/-- A text that is read against a registry is read as the same tree against a larger one, and every
block of the tree is of a kind of the smaller one. A text that is refused for anything but an
unknown kind is refused for the same fault, and so is one refused for a kind that the larger one
does not have either. So kinds that are bound in addition never break a text that was read, nor
alter its tree. -/
theorem parsing_grows_with_the_registry {β : Type} {registry larger : Registry β}
    (grows : registry.Within larger) (text : String) :
    (∀ b, parse registry text = .ok b → parse larger text = .ok b ∧
      ∀ d, b.Contains d → registry.behavior? d.kind = some d.header.behavior) ∧
    (∀ e, parse registry text = .error e → (∀ kind path, e ≠ .unknownKind kind path) →
      parse larger text = .error e) ∧
    (∀ kind path, parse registry text = .error (.unknownKind kind path) →
      larger.contains kind = false → parse larger text = .error (.unknownKind kind path)) ∧
    ∀ kinds, (∀ e ∈ kinds, registry.contains e.1 = false) → ∀ b, parse registry text = .ok b →
      parse (registry.registerAll kinds) text = .ok b := by
  have read {registry larger : Registry β} (grows : registry.Within larger) {b : Block β}
      (ok : parse registry text = .ok b) : parse larger text = .ok b := by
    obtain ⟨e, -, failed⟩ | ⟨document, parsed⟩ := parse_cases (β := β) text
    · cases (failed registry).symm.trans ok
    · rw [parsed] at ok ⊢
      obtain ⟨⟨root, path⟩, rooted, built⟩ := bind_eq_ok_iff.mp ok
      exact bind_eq_ok_iff.mpr ⟨(root, path), rooted, block_carried grows built path⟩
  have refused {e : ParseError} (failed : parse registry text = .error e)
      (still : ∀ kind there, e = .unknownKind kind there → larger.contains kind = false) :
      parse larger text = .error e := by
    obtain ⟨e', -, always⟩ | ⟨document, parsed⟩ := parse_cases (β := β) text
    · exact (always larger).trans ((always registry).symm.trans failed)
    · rw [parsed] at failed ⊢
      exact build_error_within grows failed still
  refine ⟨?_, ?_, ?_, ?_⟩
  · intro b ok
    obtain ⟨-, document, -, built⟩ := decoded_of_parse registry ok
    obtain ⟨⟨root, path⟩, -, node⟩ := bind_eq_ok_iff.mp built
    exact ⟨read grows ok, fun d inside => behavior?_of_block_ok node inside⟩
  · intro e failed other
    exact refused failed fun kind there eq => absurd eq (other kind there)
  · intro kind path failed absent
    refine refused failed ?_
    intro kind' there eq
    cases eq
    exact absent
  · intro kinds fresh b ok
    exact read ((Registry.Within.refl registry).registerAll fresh) ok

/-- A registry of one kind, and the same with two more. A chain of that kind is read against both.
An id that is a number is refused by both, though it hides a kind that only the larger one has, and
so is a kind that neither has. -/
theorem two_registries_read_alike :
    let small : Registry Stock := Registry.empty.register "logic_null" .null
    let large := small.registerAll [("text", .text), ("logic_negate", .negation)]
    let chain :=
      "\x7b\"type\":\"logic_null\",\"next\":\x7b\"block\":\x7b\"type\":\"logic_null\"\x7d\x7d\x7d"
    let numbered :=
      "\x7b\"type\":\"logic_null\",\"id\":7,\"next\":\x7b\"block\":\x7b\"type\":\"text\"\x7d\x7d\x7d"
    let odd :=
      "\x7b\"type\":\"logic_null\",\"next\":\x7b\"block\":\x7b\"type\":\"mystery\"\x7d\x7d\x7d"
    small.Within large ∧ small.contains "text" = false ∧ large.contains "text" = true ∧
    (∃ b, parse small chain = .ok b ∧ parse large chain = .ok b) ∧
    parse large numbered = .error (.malformed ⟨"$", []⟩ .idNotAString) ∧
    parse large odd = .error (.unknownKind "mystery" ⟨"$", [.next]⟩) := by
  intro small large chain numbered odd
  have grows : small.Within large := by
    apply (Registry.Within.refl small).registerAll
    intro e mem
    simp only [List.mem_cons, List.not_mem_nil, or_false] at mem
    obtain rfl | rfl := mem <;> decide
  refine ⟨grows, by decide, by decide, ?_, ?_, ?_⟩
  · obtain ⟨b, read⟩ : ∃ b, parse small chain = .ok b :=
      failure?_eq_none_iff.mp (by decide +kernel)
    exact ⟨b, read, ((parsing_grows_with_the_registry grows chain).1 b read).1⟩
  · obtain ⟨-, same, -⟩ := parsing_grows_with_the_registry grows numbered
    refine same _ (failure?_eq_some_iff.mp (by decide +kernel)) ?_
    simp
  · obtain ⟨-, -, same, -⟩ := parsing_grows_with_the_registry grows odd
    exact same _ _ (failure?_eq_some_iff.mp (by decide +kernel)) (by decide)

end Document

end BlockScript
