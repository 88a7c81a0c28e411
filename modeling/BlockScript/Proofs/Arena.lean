import BlockScript.Scope
/-!
The frames of a running script as an arena linked by index.

An arena is well formed when the last frame is current and every frame but the first is linked to
an earlier one. Then the walk along the links ends, at frame 0, and what a name means depends on
two frames only. `Kept` says what an evaluation may not change of an arena.
-/

namespace BlockScript.Scopes

/-- The last frame is current, frame 0 has no parent, and every other frame has one before it. -/
structure WellFormed (s : Scopes) : Prop where
  current_last : s.current + 1 = s.depth
  root_parent : s.parentOf 0 = none
  linked : ∀ i, 0 < i → i < s.depth → ∃ p, s.parentOf i = some p ∧ p < i

/-- The walk along the links from one frame to another that has none. It meets frames of the arena
only. -/
inductive Walk (s : Scopes) : Nat → Nat → Prop
  | ends {i : Nat} (live : i < s.depth) (stop : s.parentOf i = none) : Walk s i i
  | up {i p r : Nat} (live : i < s.depth) (link : s.parentOf i = some p) (rest : Walk s p r) :
      Walk s i r

theorem WellFormed.current_lt {s : Scopes} (h : s.WellFormed) : s.current < s.depth := by
  have := h.current_last
  omega

theorem WellFormed.depth_pos {s : Scopes} (h : s.WellFormed) : 0 < s.depth := by
  have := h.current_last
  omega

theorem WellFormed.parent_lt {s : Scopes} (h : s.WellFormed) {i p : Nat} (live : i < s.depth)
    (link : s.parentOf i = some p) : p < i := by
  by_cases hi : 0 < i
  · obtain ⟨q, hq, lt⟩ := h.linked i hi live
    rw [hq] at link
    cases link
    exact lt
  · have zero : i = 0 := by omega
    subst zero
    simp [h.root_parent] at link

theorem WellFormed.parent_eq_none_iff {s : Scopes} (h : s.WellFormed) {i : Nat}
    (live : i < s.depth) : s.parentOf i = none ↔ i = 0 := by
  constructor
  · intro none
    by_cases hi : 0 < i
    · obtain ⟨q, hq, _⟩ := h.linked i hi live
      simp [hq] at none
    · omega
  · rintro rfl
    exact h.root_parent

/-- Links lead to earlier frames, so the walk from any frame of the arena ends at frame 0. -/
theorem WellFormed.walk {s : Scopes} (h : s.WellFormed) (i : Nat) (live : i < s.depth) :
    Walk s i 0 := by
  induction i using Nat.strongRecOn with
  | ind i ih =>
    cases hp : s.parentOf i with
    | none =>
      have zero := (h.parent_eq_none_iff live).mp hp
      subst zero
      exact .ends live hp
    | some p =>
      have lt := h.parent_lt live hp
      exact .up live hp (ih p lt (by omega))

/-- A bound on the walk that is no less than the frame it starts from is enough. -/
theorem WellFormed.rootFrom_eq {s : Scopes} (h : s.WellFormed) (fuel i : Nat) (enough : i ≤ fuel)
    (live : i < s.depth) : s.rootFrom fuel i = 0 := by
  induction fuel generalizing i with
  | zero =>
    simp only [rootFrom]
    omega
  | succ fuel ih =>
    simp only [rootFrom]
    cases hp : s.parentOf i with
    | none => exact (h.parent_eq_none_iff live).mp hp
    | some p =>
      have lt := h.parent_lt live hp
      exact ih p (by omega) (by omega)

theorem WellFormed.root_eq {s : Scopes} (h : s.WellFormed) : s.root = 0 :=
  h.rootFrom_eq s.frames.length s.current (Nat.le_of_lt h.current_lt) h.current_lt

/-! What the operations do to the shape of an arena and to the bindings of its frames. -/

section
variable (s : Scopes)

@[simp] theorem depth_ofBindings (seed : Bindings) : (ofBindings seed).depth = 1 := rfl

@[simp] theorem depth_openUnder (p : Nat) : (s.openUnder p).depth = s.depth + 1 := by
  simp [openUnder, depth]

@[simp] theorem current_openUnder (p : Nat) : (s.openUnder p).current = s.depth := rfl

theorem parentOf_openUnder (p i : Nat) :
    (s.openUnder p).parentOf i = if i = s.depth then some p else s.parentOf i := by
  simp only [parentOf, openUnder, depth, List.getElem?_append]
  by_cases lt : i < s.frames.length
  · simp [lt, show i ≠ s.frames.length by omega]
  · by_cases eq : i = s.frames.length
    · simp [eq]
    · have none :
          [({ bindings := [], parent := some p } : Frame)][i - s.frames.length]? = none := by
        simp only [List.getElem?_eq_none_iff, List.length_cons, List.length_nil]
        omega
      simp [lt, eq, none]

theorem bindingsAt_openUnder (p i : Nat) (lt : i < s.depth) :
    (s.openUnder p).bindingsAt i = s.bindingsAt i := by
  have lt' : i < s.frames.length := lt
  simp [bindingsAt, openUnder, List.getElem?_append_left lt']

@[simp] theorem depth_bindAt (frame : Nat) (name : String) (value : Value) :
    (s.bindAt frame name value).depth = s.depth := by
  simp [bindAt, depth]

@[simp] theorem current_bindAt (frame : Nat) (name : String) (value : Value) :
    (s.bindAt frame name value).current = s.current := rfl

@[simp] theorem parentOf_bindAt (frame i : Nat) (name : String) (value : Value) :
    (s.bindAt frame name value).parentOf i = s.parentOf i := by
  simp only [parentOf, bindAt, List.getElem?_modify]
  cases s.frames[i]? with
  | none => rfl
  | some f => by_cases eq : frame = i <;> simp [eq]

theorem bindingsAt_bindAt_of_ne (frame i : Nat) (name : String) (value : Value)
    (ne : i ≠ frame) : (s.bindAt frame name value).bindingsAt i = s.bindingsAt i := by
  simp only [bindingsAt, bindAt, List.getElem?_modify, Ne.symm ne, ↓reduceIte]
  cases s.frames[i]? <;> rfl

theorem bindingsAt_bindAt_self (frame : Nat) (name : String) (value : Value)
    (live : frame < s.depth) :
    (s.bindAt frame name value).bindingsAt frame = (s.bindingsAt frame).put name value := by
  have live' : frame < s.frames.length := live
  simp [bindingsAt, bindAt, List.getElem?_eq_getElem live']

theorem depth_closeScope (previous : Nat) (inner : s.current ≠ 0) (live : s.current ≤ s.depth) :
    (s.closeScope previous).depth = s.current := by
  have live' : s.current ≤ s.frames.length := live
  simp [closeScope, depth, inner, live']

theorem parentOf_closeScope (previous i : Nat) (lt : i < s.current) :
    (s.closeScope previous).parentOf i = s.parentOf i := by
  simp [parentOf, closeScope, show s.current ≠ 0 by omega, lt]

theorem bindingsAt_closeScope (previous i : Nat) (lt : i < s.current) :
    (s.closeScope previous).bindingsAt i = s.bindingsAt i := by
  simp [bindingsAt, closeScope, show s.current ≠ 0 by omega, lt]

theorem parentOf_eq_none_of_le (i : Nat) (le : s.depth ≤ i) : s.parentOf i = none := by
  have le' : s.frames.length ≤ i := le
  simp [parentOf, List.getElem?_eq_none le']

theorem bindingsAt_eq_nil_of_le (i : Nat) (le : s.depth ≤ i) : s.bindingsAt i = [] := by
  have le' : s.frames.length ≤ i := le
  simp [bindingsAt, List.getElem?_eq_none le']

end

/-! Every operation keeps an arena well formed. -/

theorem wellFormed_ofBindings (seed : Bindings) : (ofBindings seed).WellFormed where
  current_last := rfl
  root_parent := rfl
  linked i pos lt := by
    simp only [depth_ofBindings] at lt
    omega

theorem WellFormed.openUnder {s : Scopes} (h : s.WellFormed) {p : Nat} (live : p < s.depth) :
    (s.openUnder p).WellFormed where
  current_last := by simp
  root_parent := by
    rw [parentOf_openUnder, if_neg (by have := h.depth_pos; omega)]
    exact h.root_parent
  linked i pos lt := by
    rw [parentOf_openUnder]
    by_cases last : i = s.depth
    · exact ⟨p, by simp [last], by omega⟩
    · rw [if_neg last]
      simp only [depth_openUnder] at lt
      exact h.linked i pos (by omega)

theorem WellFormed.closeScope {s : Scopes} (h : s.WellFormed) {previous : Nat}
    (before : previous + 1 = s.current) : (s.closeScope previous).WellFormed := by
  have last := h.current_last
  have hd := s.depth_closeScope previous (by omega) (by omega)
  refine ⟨?_, ?_, ?_⟩
  · rw [hd]
    exact before
  · rw [s.parentOf_closeScope previous 0 (by omega)]
    exact h.root_parent
  · intro i pos lt
    rw [hd] at lt
    rw [s.parentOf_closeScope previous i lt]
    exact h.linked i pos (by omega)

theorem WellFormed.unwind_eq {s : Scopes} (h : s.WellFormed) :
    s.unwind = ofBindings (s.bindingsAt 0) := by
  obtain ⟨frames, current⟩ := s
  cases frames with
  | nil =>
    have := h.current_last
    simp [depth] at this
  | cons f rest =>
    have hp : f.parent = none := by simpa [parentOf] using h.root_parent
    obtain ⟨bindings, parent⟩ := f
    simp only at hp
    subst hp
    rfl

/-- An assignment writes one frame, the current one or the root. -/
theorem WellFormed.set_eq_bindAt {s : Scopes} (h : s.WellFormed) (name : String) (value : Value) :
    ∃ frame, (frame = 0 ∨ frame = s.current) ∧ s.set name value = s.bindAt frame name value := by
  simp only [set, h.root_eq]
  split
  · exact ⟨_, .inr rfl, rfl⟩
  · split
    · exact ⟨_, .inl rfl, rfl⟩
    · exact ⟨_, .inr rfl, rfl⟩

theorem WellFormed.setGlobal_eq {s : Scopes} (h : s.WellFormed) (name : String) (value : Value) :
    s.setGlobal name value = s ∨ s.setGlobal name value = s.bindAt 0 name value := by
  simp only [setGlobal, h.root_eq]
  split
  · exact .inl rfl
  · exact .inr rfl

/-- What an evaluation keeps of the arena it finds: the frames and their links, which frame is
current, and the bindings of every frame that is neither current nor the root. -/
structure Kept (s t : Scopes) : Prop where
  depth : t.depth = s.depth
  current : t.current = s.current
  parentOf : ∀ i, t.parentOf i = s.parentOf i
  bindingsAt : ∀ i, i ≠ 0 → i ≠ s.current → t.bindingsAt i = s.bindingsAt i

theorem Kept.refl (s : Scopes) : Kept s s :=
  ⟨rfl, rfl, fun _ => rfl, fun _ _ _ => rfl⟩

theorem Kept.trans {s t u : Scopes} (h : Kept s t) (k : Kept t u) : Kept s u where
  depth := k.depth.trans h.depth
  current := k.current.trans h.current
  parentOf i := (k.parentOf i).trans (h.parentOf i)
  bindingsAt i root cur :=
    (k.bindingsAt i root (by rw [h.current]; exact cur)).trans (h.bindingsAt i root cur)

theorem Kept.wellFormed {s t : Scopes} (h : Kept s t) (wf : s.WellFormed) : t.WellFormed where
  current_last := by
    rw [h.current, h.depth]
    exact wf.current_last
  root_parent := by
    rw [h.parentOf]
    exact wf.root_parent
  linked i pos lt := by
    rw [h.depth] at lt
    rw [h.parentOf]
    exact wf.linked i pos lt

theorem kept_bindAt {s : Scopes} {frame : Nat} (name : String) (value : Value)
    (at_ends : frame = 0 ∨ frame = s.current) : Kept s (s.bindAt frame name value) where
  depth := s.depth_bindAt frame name value
  current := rfl
  parentOf i := s.parentOf_bindAt frame i name value
  bindingsAt i root cur := by
    apply bindingsAt_bindAt_of_ne
    rintro rfl
    exact at_ends.elim root cur

theorem WellFormed.kept_set {s : Scopes} (h : s.WellFormed) (name : String) (value : Value) :
    Kept s (s.set name value) := by
  obtain ⟨frame, at_ends, eq⟩ := h.set_eq_bindAt name value
  rw [eq]
  exact kept_bindAt name value at_ends

theorem WellFormed.kept_setGlobal {s : Scopes} (h : s.WellFormed) (name : String) (value : Value) :
    Kept s (s.setGlobal name value) := by
  obtain eq | eq := h.setGlobal_eq name value
  · rw [eq]
    exact .refl s
  · rw [eq]
    exact kept_bindAt name value (.inl rfl)

/-- A scope that is opened, left as `Kept` allows and closed again leaves nothing behind: the
frames below it are those that were there. -/
theorem WellFormed.kept_closeScope {s t : Scopes} (h : s.WellFormed) (k : Kept s.openScope t) :
    Kept s (t.closeScope s.current) := by
  have last := h.current_last
  have cur : t.current = s.depth := k.current
  have dep : t.depth = s.depth + 1 := by
    rw [k.depth, openScope, depth_openUnder]
  have hd := t.depth_closeScope s.current (by omega) (by omega)
  rw [cur] at hd
  refine ⟨hd, rfl, fun i => ?_, fun i root ne => ?_⟩
  · by_cases lt : i < s.depth
    · rw [t.parentOf_closeScope _ i (by omega), k.parentOf, openScope, parentOf_openUnder,
        if_neg (by omega)]
    · rw [parentOf_eq_none_of_le _ i (by omega), parentOf_eq_none_of_le _ i (by omega)]
  · by_cases lt : i < s.depth
    · have ne' : i ≠ s.openScope.current := by
        simp only [openScope, current_openUnder]
        omega
      rw [t.bindingsAt_closeScope _ i (by omega), k.bindingsAt i root ne', openScope,
        bindingsAt_openUnder _ _ _ lt]
    · rw [bindingsAt_eq_nil_of_le _ i (by omega), bindingsAt_eq_nil_of_le _ i (by omega)]

end BlockScript.Scopes
