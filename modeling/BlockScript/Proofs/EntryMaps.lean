import BlockScript.Entries
/-!
Entries as finite maps.

Entries in order of name are determined by what they hold under each name, so what is put into
them, and in which order, can be compared by looking names up.
-/

namespace BlockScript.Entries

variable {α : Type}

/-- Putting a value under a name changes what that name holds and nothing else. -/
theorem value?_put (name other : String) (value : α) (es : Entries α) :
    value? other (put name value es) = if other = name then some value else value? other es := by
  by_cases eq : other = name
  · subst eq
    rw [value?_put_self, if_pos rfl]
  · rw [value?_put_of_ne eq, if_neg eq]

theorem value?_cons (n name : String) (v : α) (es : Entries α) :
    value? name ((n, v) :: es) = if n = name then some v else value? name es := rfl

theorem value?_eq_none_iff {name : String} {es : Entries α} :
    value? name es = none ↔ ∀ e ∈ es, e.1 ≠ name := by
  induction es with
  | nil => simp
  | cons e rest ih =>
    obtain ⟨n, v⟩ := e
    rw [value?_cons]
    by_cases eq : n = name
    · simp [eq]
    · simp [eq, ih]

theorem value?_map {γ : Type} (f : α → γ) (name : String) (es : Entries α) :
    value? name (es.map fun e => (e.1, f e.2)) = (value? name es).map f := by
  induction es with
  | nil => rfl
  | cons e es ih =>
    obtain ⟨n, v⟩ := e
    by_cases eq : n = name
    · simp [value?, eq]
    · simpa [value?, eq] using ih

theorem names_map {γ : Type} (f : α → γ) (es : Entries α) :
    names (es.map fun e => (e.1, f e.2)) = names es := by
  simp [names, Function.comp_def]

theorem mem_of_value? {name : String} {v : α} {es : Entries α} (h : value? name es = some v) :
    (name, v) ∈ es := by
  induction es with
  | nil => simp at h
  | cons e rest ih =>
    obtain ⟨n, u⟩ := e
    simp only [value?] at h
    split at h
    · next eq =>
      cases h
      simp [eq]
    · exact List.mem_cons_of_mem _ (ih h)

theorem mem_names_iff {name : String} {es : Entries α} :
    name ∈ names es ↔ ∃ v, value? name es = some v := by
  constructor
  · intro mem
    obtain ⟨e, mem, eq⟩ := List.mem_map.mp mem
    cases found : value? name es with
    | some v => exact ⟨v, rfl⟩
    | none => exact absurd eq (value?_eq_none_iff.mp found e mem)
  · rintro ⟨v, found⟩
    exact List.mem_map_of_mem (mem_of_value? found)

theorem mem_put {name : String} {value : α} {es : Entries α} {e : String × α}
    (h : e ∈ put name value es) : e = (name, value) ∨ e ∈ es := by
  induction es with
  | nil => exact .inl (List.mem_singleton.mp h)
  | cons f rest ih =>
    obtain ⟨n, v⟩ := f
    simp only [put] at h
    split at h
    · exact List.mem_cons.mp h
    · split at h
      · obtain rfl | mem := List.mem_cons.mp h
        · exact .inl rfl
        · exact .inr (List.mem_cons_of_mem _ mem)
      · obtain rfl | mem := List.mem_cons.mp h
        · exact .inr List.mem_cons_self
        · obtain eq | mem := ih mem
          · exact .inl eq
          · exact .inr (List.mem_cons_of_mem _ mem)

theorem Sorted.put {es : Entries α} (h : es.Sorted) (name : String) (value : α) :
    (es.put name value).Sorted := by
  induction es with
  | nil => exact List.pairwise_singleton _ _
  | cons f rest ih =>
    obtain ⟨n, v⟩ := f
    obtain ⟨first, sorted⟩ := List.pairwise_cons.mp h
    simp only [Entries.put]
    split
    · next lt =>
      refine List.pairwise_cons.mpr ⟨?_, h⟩
      intro e mem
      obtain rfl | mem := List.mem_cons.mp mem
      · exact lt
      · exact String.lt_trans lt (first e mem)
    · next ge =>
      split
      · next eq =>
        subst eq
        exact List.pairwise_cons.mpr ⟨first, sorted⟩
      · next ne =>
        refine List.pairwise_cons.mpr ⟨?_, ih sorted⟩
        intro e mem
        obtain rfl | mem := mem_put mem
        · by_cases lt : n < name
          · exact lt
          · exact absurd (String.le_antisymm (String.not_lt.mp ge) (String.not_lt.mp lt)) ne
        · exact first e mem

/-- A name comes before all names behind it, so it is not among them. -/
theorem Sorted.value?_tail {n : String} {v : α} {es : Entries α} (h : Sorted ((n, v) :: es)) :
    value? n es = none := by
  rw [value?_eq_none_iff]
  intro e mem eq
  have lt := (List.pairwise_cons.mp h).1 e mem
  rw [eq] at lt
  exact String.lt_irrefl n lt

/-- Entries in order that hold the same under every name are the same. -/
theorem Sorted.ext {es fs : Entries α} (h : es.Sorted) (k : fs.Sorted)
    (same : ∀ name, value? name es = value? name fs) : es = fs := by
  induction es generalizing fs with
  | nil =>
    cases fs with
    | nil => rfl
    | cons f rest => simpa [value?] using same f.1
  | cons e es ih =>
    obtain ⟨n, v⟩ := e
    cases fs with
    | nil => simpa [value?] using same n
    | cons f fs =>
      obtain ⟨m, u⟩ := f
      have names : n = m := by
        by_cases eq : n = m
        · exact eq
        -- Each first name would have to stand behind the other.
        have one : value? n fs = some v := by
          simpa [value?_cons, Ne.symm eq] using (same n).symm
        have two : value? m es = some u := by
          simpa [value?_cons, eq] using same m
        have lt := (List.pairwise_cons.mp h).1 _ (mem_of_value? two)
        have gt := (List.pairwise_cons.mp k).1 _ (mem_of_value? one)
        exact absurd (String.lt_trans lt gt) (String.lt_irrefl n)
      subst names
      have values : v = u := by simpa [value?_cons] using same n
      subst values
      have rest : es = fs := by
        apply ih (List.pairwise_cons.mp h).2 (List.pairwise_cons.mp k).2
        intro name
        by_cases eq : n = name
        · subst eq
          rw [h.value?_tail, k.value?_tail]
        · simpa [value?_cons, eq] using same name
      rw [rest]

/-- Puts entries one after the other into others. -/
def putAll (es : List (String × α)) (into : Entries α) : Entries α :=
  es.foldl (fun acc e => put e.1 e.2 acc) into

theorem Sorted.putAll {into : Entries α} (h : into.Sorted) (es : List (String × α)) :
    (Entries.putAll es into).Sorted := by
  induction es generalizing into with
  | nil => exact h
  | cons e es ih => exact ih (h.put e.1 e.2)

theorem mem_putAll {es : List (String × α)} {into : Entries α} {e : String × α}
    (h : e ∈ putAll es into) : e ∈ es ∨ e ∈ into := by
  induction es generalizing into with
  | nil => exact .inr h
  | cons f es ih =>
    obtain mem | mem := ih h
    · exact .inl (List.mem_cons_of_mem f mem)
    · obtain rfl | mem := mem_put mem
      · exact .inl List.mem_cons_self
      · exact .inr mem

theorem mem_ofList {es : List (String × α)} {e : String × α} (h : e ∈ ofList es) : e ∈ es := by
  have mem : e ∈ putAll es [] := h
  obtain mem | none := mem_putAll mem
  · exact mem
  · cases none

/-- Of entries with different names, each ends up under its name. -/
theorem value?_putAll {es : List (String × α)} (unique : (names es).Nodup) (into : Entries α)
    (name : String) : value? name (putAll es into) = (value? name es).or (value? name into) := by
  induction es generalizing into with
  | nil => rfl
  | cons e es ih =>
    obtain ⟨n, v⟩ := e
    obtain ⟨fresh, unique⟩ := List.nodup_cons.mp unique
    have step : putAll ((n, v) :: es) into = putAll es (put n v into) := rfl
    rw [step, ih unique, value?_put, value?_cons]
    by_cases eq : name = n
    · subst eq
      have absent : value? name es = none := by
        rw [value?_eq_none_iff]
        intro e mem eq
        exact fresh (List.mem_map.mpr ⟨e, mem, eq⟩)
      simp [absent]
    · simp [eq, Ne.symm eq]

theorem Sorted.nodup {es : Entries α} (h : es.Sorted) : (names es).Nodup := by
  have ordered : (names es).Pairwise (· < ·) := List.pairwise_map.mpr h
  refine ordered.imp ?_
  rintro a b lt rfl
  exact String.lt_irrefl a lt

/-- Entries in order come out as they are when they are put together. -/
theorem Sorted.ofList_eq {es : Entries α} (h : es.Sorted) : ofList es = es := by
  have sorted : (ofList es).Sorted := Sorted.putAll .nil es
  apply sorted.ext h
  intro name
  have found : value? name (ofList es) = _ := value?_putAll h.nodup [] name
  simpa using found

end BlockScript.Entries
