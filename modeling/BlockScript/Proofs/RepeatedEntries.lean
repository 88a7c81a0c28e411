import BlockScript.Proofs.EntryCounts
/-!
How the entries of one node bound those of another.

An input is entered at most once for each time its block is. The body of a repetition is entered
once in each iteration, so over a run as often as the repetition computed, entry by entry.
-/

namespace BlockScript

variable {β ε α γ ι : Type}

/-- The sum of something over the entries of a node. -/
def sumAt (p : Position) (measure : Arrival (Stock × Position) ε → Nat)
    (seen : List (Arrival (Stock × Position) ε)) : Nat :=
  ((seen.filter fun x => x.block.position = p).map measure).sum

theorem sumAt_append (p : Position) (measure : Arrival (Stock × Position) ε → Nat)
    (seen more : List (Arrival (Stock × Position) ε)) :
    sumAt p measure (seen ++ more) = sumAt p measure seen + sumAt p measure more := by
  simp [sumAt]

/-- One node is entered no more often than the entries of another one account for. -/
def Program.Covered (env : Environment (Stock × Position) ε) (p q : Position)
    (measure : Arrival (Stock × Position) ε → Nat) (r : Program (Stock × Position) α) : Prop :=
  ∀ s w, entriesAt q (env.arrivals r s w) ≤ sumAt p measure (env.arrivals r s w)

namespace Program

variable {env : Environment (Stock × Position) ε} {p q : Position}
  {measure : Arrival (Stock × Position) ε → Nat}

theorem covered_of_never {r : Program (Stock × Position) α} (never : r.Enters env q 0) :
    r.Covered env p q measure :=
  fun s w => Nat.le_trans (never s w) (Nat.zero_le _)

theorem Covered.bind {r : Program (Stock × Position) α} {f : α → Program (Stock × Position) γ}
    (first : r.Covered env p q measure) (rest : ∀ a, (f a).Covered env p q measure) :
    (r >>= f).Covered env p q measure := by
  intro s w
  rw [Environment.arrivals_bind, entriesAt_append, sumAt_append]
  apply Nat.add_le_add (first s w)
  split
  · exact rest _ _ _
  · exact Nat.le_refl 0

theorem compositional_covered :
    Compositional (fun _ (r : Program (Stock × Position) _) => r.Covered env p q measure)
      (fun a => ∀ b, a = .stop .enter b → b.position ≠ q) where
  done r := covered_of_never (enters_done r)
  act _ other := covered_of_never (enters_act other)
  bind := Covered.bind
  inScope body := fun s w => by
    rw [Environment.arrivals_inScope]
    exact body _ w

end Program

namespace Block

open Program

variable {env : Environment (Stock × Position) ε} {p q : Position}
  {measure : Arrival (Stock × Position) ε → Nat}

/-- To enter the block at a position and to evaluate it enters a node no more often than the entry
of the block accounts for. -/
def Accountable (b : Block Stock) (env : Environment (Stock × Position) ε) (p q : Position)
    (measure : Arrival (Stock × Position) ε → Nat) : Prop :=
  ∀ s w, entriesAt q (env.arrivals
    (perform (.stop .enter (b.placed p)) >>= fun _ => (b.placed p).own) s w) ≤
      measure ⟨b.placed p, s, w⟩

theorem Accountable.covered {b : Block Stock} (h : b.Accountable env p q measure) :
    (perform (.stop .enter (b.placed p)) >>= fun _ => (b.placed p).own).Covered env p q
      measure := by
  intro s w
  refine Nat.le_trans (h s w) ?_
  have here : (b.placed p).position = p := by
    cases b
    rfl
  rw [Environment.arrivals_bind, Environment.arrivals_perform, sumAt_append]
  simp [sumAt, Action.arrival, here]

/-- If what lies in a slot of a node is covered where the node is entered and evaluated, it is
covered in the whole tree. -/
theorem placed_covered (b : Block Stock) {start : Position} {slot : String}
    (below : p ++ [.slot slot] <+: q) (outside : ¬(p ++ [.slot slot]) <+: start)
    (node : ∀ r c, start ++ r = p → b.at? r = some c → c.Accountable env p q measure) :
    (b.placed start).program.Covered env p q measure := by
  induction b using Block.induct generalizing start with
  | step h inputs next inner after =>
    have c : Compositional (fun _ (r : Program (Stock × Position) _) => r.Covered env p q measure)
        (fun a => ∀ b, a = .stop .enter b → b.position ≠ q) := compositional_covered
    have apart : start ≠ q := by
      rintro rfl
      exact outside below
    have further {turn : Turn} {d : Block Stock}
        (leads : (Block.mk h inputs next).turn? turn = some d) (r : Position) (e : Block Stock)
        (same : start ++ [turn] ++ r = p) (found : d.at? r = some e) :
        e.Accountable env p q measure := by
      refine node (turn :: r) e ?_ ?_
      · rw [← same, List.append_assoc]
        rfl
      · rw [at?_cons leads, found]
    have evaluated : (perform (.stop .enter (placed start (.mk h inputs next))) >>= fun _ =>
        (placed start (.mk h inputs next)).own).Covered env p q measure := by
      by_cases here : start = p
      · subst here
        exact (node [] _ (List.append_nil _) rfl).covered
      refine c.bind (covered_of_never (enters_other _ apart)) fun _ => ?_
      refine Stock.program_holds c _
        (fun _ _ _ => c.spawnChild (by simp) (by simp) (by simp)) _ ?_ ?_
      · intro name r found
        rw [value?_placedPrograms, Option.map_eq_some_iff] at found
        obtain ⟨d, plugged, rfl⟩ := found
        refine inner name d plugged ?_ (further plugged)
        intro within
        obtain same | within := List.prefix_concat_iff.mp within
        · exact here (List.append_inj_left' same rfl).symm
        · exact outside within
      · intro a performs b same
        subst same
        exact absurd performs Stock.not_performs_stop
    have rest (v : Value) :
        (program.continuation v (placed start (.mk h inputs next)).next).Covered env p q
          measure := by
      cases next with
      | none => exact c.done _
      | some n =>
        refine after n rfl ?_ (further rfl)
        intro within
        obtain same | within := List.prefix_concat_iff.mp within
        · exact absurd (List.append_inj_right' same rfl) (by simp)
        · exact outside within
    rw [program_eq]
    refine c.bind (c.act .checkAbort (by simp)) fun _ => ?_
    rw [evaluation, ← bind_assoc]
    exact c.bind evaluated fun v => c.bind (c.act _ (by simp)) fun _ => rest v

/-- What a block enters at most once on its own is accounted for by one entry of the block. -/
theorem accountable_of_once {b : Block Stock} (apart : p ≠ q)
    (once : (b.placed p).own.Enters env q 1) : b.Accountable env p q fun _ => 1 := by
  intro s w
  have entered : (perform (.stop .enter (b.placed p)) >>= fun _ => (b.placed p).own).Enters env q
      (0 + 1) := (enters_other b apart).bind fun _ => once
  exact entered s w

end Block

/-- The number of times a repetition computes before it runs its body. -/
def Block.times [Behavior β] (b : Block β) : Program β Nat :=
  Kinds.times b.header (program.inputPrograms b.inputs)

/-- The number of times that a repetition computes where it is entered, 0 if it does not come to
that. -/
def Environment.iterations [Behavior β] (env : Environment β ε) (x : Arrival β ε) : Nat :=
  match env.run (Program.perform (.stop .enter x.block) >>= fun _ => x.block.times)
    x.state x.world with
  | (.result (.ok n), _, _) => n
  | _ => 0

namespace Block

open Program

variable {env : Environment (Stock × Position) ε} {p q : Position}

/-- The entry of a repetition accounts for its iterations, if the node lies in its body and is
entered at most once in each. -/
theorem accountable_of_repetition {b : Block Stock} (apart : p ≠ q)
    (repetition : b.header.behavior = .repetition)
    (body : ∀ c, b.input? "DO" = some c →
      (c.placed (p ++ [.slot "DO"])).program.Enters env q 1)
    (others : ∀ slot c, slot ≠ "DO" → b.input? slot = some c →
      (c.placed (p ++ [.slot slot])).program.Enters env q 0) :
    b.Accountable env p q env.iterations := by
  obtain ⟨h, inputs, next⟩ := b
  have enter : (program.inputPrograms (placed.placedInputs p inputs)).Enter env q
      fun slot => if slot = "DO" then 1 else 0 := by
    intro slot r found
    rw [value?_placedPrograms, Option.map_eq_some_iff] at found
    obtain ⟨c, plugged, rfl⟩ := found
    dsimp only
    split
    · next same =>
      subst same
      exact body c plugged
    · next different => exact others slot c different plugged
  have own : (placed p (.mk h inputs next)).own = (placed p (.mk h inputs next)).times >>=
      fun n => Kinds.iterate (program.inputPrograms (placed.placedInputs p inputs)) n .null := by
    refine Eq.trans ?_ (Kinds.repeatBlock_eq _ _)
    exact congrArg (fun k : Stock => k.program _ _) repetition
  have computed : (perform (.stop .enter (placed p (.mk h inputs next))) >>= fun _ =>
      (placed p (.mk h inputs next)).times).Enters env q (0 + 0) :=
    (enters_other _ apart).bind fun _ => Kinds.times_enters enter _
  intro s w
  rw [own, ← bind_assoc, Environment.arrivals_bind, entriesAt_append]
  have none := computed s w
  rw [Environment.iterations]
  rcases env.run (perform (.stop .enter (placed p (.mk h inputs next))) >>= fun _ =>
    (placed p (.mk h inputs next)).times) s w with ⟨(_ | n) | _ | _ | _, t, v⟩
  · exact none
  · have repeated := Kinds.iterate_enters enter n .null t v
    rw [if_pos rfl, Nat.mul_one] at repeated
    dsimp only
    omega
  · exact none
  · exact none
  · exact none

/-- All blocks that a placed tree enters are its nodes. -/
theorem placed_all (b : Block Stock) {start : Position} {Q : Block (Stock × Position) → Prop}
    (nodes : ∀ r c, b.at? r = some c → Q (c.placed (start ++ r))) :
    (b.placed start).program.All fun a => ∀ c, a = .stop .enter c → Q c := by
  induction b using Block.induct generalizing start with
  | step h inputs next inner after =>
    have c : Compositional
        (fun _ (r : Program (Stock × Position) _) => r.All fun a => ∀ c, a = .stop .enter c → Q c)
        (fun a => ∀ c, a = .stop .enter c → Q c) := compositional_all (by simp) (by simp)
    have further {turn : Turn} {d : Block Stock}
        (leads : (Block.mk h inputs next).turn? turn = some d) (r : Position) (e : Block Stock)
        (found : d.at? r = some e) :
        Q (e.placed (start ++ [turn] ++ r)) := by
      rw [List.append_assoc]
      exact nodes (turn :: r) e (by rw [at?_cons leads, found])
    refine chain_holds c _ (c.enter (by simp) ?_) ?_ (c.act _ (by simp)) ?_
    · rintro _ ⟨⟩
      have root := nodes [] _ rfl
      rwa [List.append_nil] at root
    · refine Stock.program_holds c _
        (fun _ _ _ => c.spawnChild (by simp) (by simp) (by simp)) _ ?_ ?_
      · intro name r found
        rw [value?_placedPrograms, Option.map_eq_some_iff] at found
        obtain ⟨d, plugged, rfl⟩ := found
        exact inner name d plugged (further plugged)
      · rintro a performs d rfl
        exact absurd performs Stock.not_performs_stop
    · intro n follows
      cases next with
      | none => cases follows
      | some d =>
        cases follows
        exact after d rfl (further rfl)

end Block

theorem Environment.block_of_mem_arrivals {env : Environment β ε} {Q : Block β → Prop}
    {p : Program β α} (all : p.All fun a => ∀ c, a = .stop .enter c → Q c) {s : RunState}
    {w : World ε} {x : Arrival β ε} (mem : x ∈ env.arrivals p s w) : Q x.block := by
  induction p generalizing s w with
  | done r => cases mem
  | act a resume ih =>
    obtain ⟨here, later⟩ := all
    rw [arrivals] at mem
    obtain now | mem := List.mem_append.mp mem
    · cases a with
      | stop reason b =>
        cases reason with
        | enter =>
          cases List.mem_singleton.mp now
          exact here b rfl
        | _ => cases now
      | _ => cases now
    · split at mem
      · exact ih _ (later _) mem
      · cases mem

open Program Inputs in
theorem Kinds.times_rename {δ : Type} (f : β → δ) (h : Header β) (inputs : Inputs β) :
    (times h inputs).rename f = times (h.rename f) (inputs.rename f) := by
  have same : (h.rename f).fields = h.fields := rfl
  unfold times
  rw [same]
  split
  · rw [rename_bind]
    rfl
  · simp only [rename_bind, required_rename]
    rfl

theorem Block.times_unplaced (b : Block (Stock × ι)) :
    b.times.rename Prod.fst = b.unplaced.times := by
  obtain ⟨h, inputs, next⟩ := b
  rw [times, Kinds.times_rename]
  exact congrArg (Kinds.times _) (inputPrograms_unplaced inputs)

/-- The number of times does not depend on the positions. -/
theorem Environment.iterations_shown (env : Environment Stock ε) (x : Arrival (Stock × ι) ε) :
    (env.shown Prod.fst).iterations x = env.iterations (x.rename Prod.fst) := by
  have same : (Program.perform (.stop .enter x.block) >>= fun _ => x.block.times).rename Prod.fst =
      Program.perform (.stop .enter x.block.unplaced) >>= fun _ => x.block.unplaced.times := by
    rw [Program.rename_bind, x.block.times_unplaced]
    rfl
  rw [iterations, ← run_rename, same]
  rfl

namespace Block

open Program

variable {env : Environment (Stock × Position) ε} {p r : Position} {slot : String}

theorem plugged_once {root b c : Block Stock} (found : root.at? p = some b)
    (plugged : b.input? slot = some c)
    (free : ∀ R, ¬root.InBody (p ++ .slot slot :: R) (p ++ .slot slot :: r)) :
    (c.placed (p ++ [.slot slot])).program.Enters env (p ++ .slot slot :: r) 1 := by
  have once : (c.placed (p ++ [.slot slot])).program.Enters env (p ++ [.slot slot] ++ r) 1 :=
    c.placed_once fun R inside => free R (InBody.within found (inside.under plugged))
  rwa [List.append_assoc] at once

theorem plugged_never {other : String} (different : other ≠ slot) (c : Block Stock) :
    (c.placed (p ++ [.slot other])).program.Enters env (p ++ .slot slot :: r) 0 := by
  apply c.placed_never
  intro within
  have first := (List.prefix_append_right_inj p).mp within
  simp only [List.cons_prefix_cons, Turn.slot.injEq] at first
  exact different first.1

end Block

namespace Script

open Block

variable (script : Script Stock) (env : Environment Stock ε) (w : World ε)

theorem arrivals_once {q : Position} (free : ∀ p, ¬script.root.InBody p q) :
    entriesAt q (script.arrivals env w) ≤ 1 :=
  (script.root.placed_once free : Program.Enters _ ([] ++ q) 1 _) _ _

/-- What lies in a slot of a node, and in no body that the node does not lie in, is entered at most
once for each entry of the node. -/
theorem arrivals_in_slot {p q : Position} {slot : String} (below : p ++ [.slot slot] <+: q)
    (same : ∀ R, script.root.InBody R q → script.root.InBody R p) :
    entriesAt q (script.arrivals env w) ≤ entriesAt p (script.arrivals env w) := by
  have covered : (script.root.placed []).program.Covered (env.shown Prod.fst) p q fun _ => 1 := by
    apply script.root.placed_covered below (by simp)
    rintro _ b rfl found
    obtain ⟨r, rfl⟩ := below
    rw [List.append_assoc] at same ⊢
    refine accountable_of_once (by simp) (b.placed_own_once slot ?_ ?_ ?_)
    · intro c plugged
      refine plugged_once found plugged fun R inside => ?_
      have shorter := (same _ inside).2.length_le
      simp only [List.length_append, List.length_cons] at shorter
      omega
    · intro other c different _
      exact plugged_never different c
    · rintro ⟨repetition, rfl⟩
      have shorter := (same _ ⟨⟨b, found, repetition⟩, by simp⟩).2.length_le
      simp only [List.length_append, List.length_cons] at shorter
      omega
  refine Nat.le_trans (covered _ _) (Nat.le_of_eq ?_)
  simp [sumAt, entriesAt, arrivals, List.countP_eq_length_filter]

/-- What lies in the body of a repetition, and in no other body inside of it, is entered at most as
often as the repetition computed at its entries. -/
theorem arrivals_in_body {p q : Position} (body : script.root.InBody p q)
    (innermost : ∀ R, script.root.InBody R q → R <+: p) :
    entriesAt q (script.arrivals env w) ≤
      sumAt p (fun x => env.iterations (x.rename Prod.fst)) (script.arrivals env w) := by
  have covered : (script.root.placed []).program.Covered (env.shown Prod.fst) p q
      (env.shown Prod.fst).iterations := by
    obtain ⟨⟨b, here, repetition⟩, below⟩ := body
    apply script.root.placed_covered below (by simp)
    rintro _ c rfl found
    cases Option.some.inj (here.symm.trans found)
    obtain ⟨r, rfl⟩ := below
    rw [List.append_assoc] at innermost ⊢
    refine accountable_of_repetition (by simp) repetition ?_ ?_
    · intro c plugged
      refine plugged_once found plugged fun R inside => ?_
      have shorter := (innermost _ inside).length_le
      simp only [List.length_append, List.length_cons] at shorter
      omega
    · intro other c different _
      exact plugged_never different c
  have measure : (fun x => env.iterations (x.rename Prod.fst)) =
      (env.shown (Prod.fst : Stock × Position → Stock)).iterations :=
    funext fun x => (env.iterations_shown x).symm
  rw [measure]
  exact covered _ _

end Script

/-- The nodes a run enters, as its program enters them. A node in the body of no repetition is
entered at most once. Any other is entered at most as often as the innermost repetition around it
computed, summed over the entries of that repetition. What lies in a slot of a node, and in no body
that the node does not lie in, is entered at most once for each entry of the node. -/
theorem entries_bounded_by_position (script : Script Stock) (env : Environment Stock ε)
    (w : World ε) :
    let seen := script.arrivals env w
    seen.map (Arrival.rename Prod.fst) =
      env.arrivals script.root.program (script.initial env w) (script.limited w) ∧
    (∀ x ∈ seen, script.root.at? x.block.position = some x.block.unplaced) ∧
    (∀ q, (∀ p, ¬script.root.InBody p q) → entriesAt q seen ≤ 1) ∧
    (∀ p q, script.root.InBody p q → (∀ r, script.root.InBody r q → r <+: p) →
      entriesAt q seen ≤ sumAt p (fun x => env.iterations (x.rename Prod.fst)) seen) ∧
    ∀ p slot q, p ++ [.slot slot] <+: q →
      (∀ r, script.root.InBody r q → script.root.InBody r p) →
      entriesAt q seen ≤ entriesAt p seen := by
  intro seen
  refine ⟨script.arrivals_unplaced env w, ?_, ?_, ?_, ?_⟩
  · intro x mem
    refine Environment.block_of_mem_arrivals
      (Q := fun b => script.root.at? b.position = some b.unplaced) (script.root.placed_all ?_) mem
    intro r c found
    rw [Block.unplaced_placed]
    cases c
    exact found
  · intro q free
    exact script.arrivals_once env w free
  · intro p q body innermost
    exact script.arrivals_in_body env w body innermost
  · intro p slot q below same
    exact script.arrivals_in_slot env w below same

/-- A repetition of two times, and in its body one of three times around a text. -/
def twiceThreeTimes : Block Stock :=
  repeated "outer" 2 (repeated "inner" 3
    (.mk ⟨"text", some "text", .text, [("TEXT", .string "x")], []⟩ [] none))
where
  repeated (id : String) (times : Nat) (body : Block Stock) : Block Stock :=
    .mk ⟨"controls_repeat_ext", some id, .repetition, [], []⟩
      [("DO", body),
        ("TIMES", .mk ⟨"math_number", none, .number, [("NUM", .number (.nat times))], []⟩ [] none)]
      none

/-- The text is entered six times, which is the sum of three and three over the two entries of the
inner repetition, and the number of its times is computed once for each. -/
theorem six_entries_in_two_bodies :
    let script : Script Stock := ⟨twiceThreeTimes, {}⟩
    let env : Environment Stock Unit :=
      { site := .bare [], debugger := none, aborted := fun _ => false, abort := fun e => e,
        react := fun e => e }
    let w : World Unit := { peers := (), origin := ⟨0, 0⟩ }
    let seen := script.arrivals env w
    let inner : Position := [.slot "DO"]
    let text : Position := [.slot "DO", .slot "DO"]
    twiceThreeTimes.InBody inner text ∧ entriesAt text seen = 6 ∧
      6 ≤ sumAt inner (fun x => env.iterations (x.rename Prod.fst)) seen ∧
      entriesAt [.slot "DO", .slot "TIMES"] seen ≤ 2 := by
  intro script env w seen inner text
  have body : twiceThreeTimes.InBody inner text := ⟨⟨_, rfl, rfl⟩, by decide⟩
  have count : entriesAt text seen = 6 ∧ entriesAt inner seen = 2 := by
    decide +kernel
  obtain ⟨-, -, -, repeated, once⟩ := entries_bounded_by_position script env w
  refine ⟨body, count.1, ?_, ?_⟩
  · rw [← count.1]
    refine repeated inner text body fun r other => ?_
    have shorter := other.2.length_le
    simp only [List.length_append, List.length_cons, text] at shorter
    exact List.prefix_of_prefix_length_le ((List.prefix_append r _).trans other.2) (by decide)
      (by simp [inner]; omega)
  · rw [← count.2]
    refine once inner "TIMES" _ (by decide) fun r other => ⟨other.1, ?_⟩
    obtain ⟨-, below⟩ := other
    rcases r with _ | ⟨turn, _ | ⟨turn', rest⟩⟩
    · decide
    · simp at below
    · simp at below

end BlockScript
