/-!
Named entries kept in increasing order of name, at most one for each name.

The order is that of code points. `Sorted` is the invariant; every operation keeps it.
-/

namespace BlockScript

abbrev Entries (α : Type) := List (String × α)

namespace Entries

variable {α : Type}

/-- The value under a name. -/
def value? (name : String) : Entries α → Option α
  | [] => none
  | (n, v) :: rest => if n = name then some v else value? name rest

def binds (name : String) (es : Entries α) : Bool :=
  (value? name es).isSome

/-- Puts a value under a name, over the one that was there. -/
def put (name : String) (value : α) : Entries α → Entries α
  | [] => [(name, value)]
  | (n, v) :: rest =>
    if name < n then (name, value) :: (n, v) :: rest
    else if n = name then (name, value) :: rest
    else (n, v) :: put name value rest

/-- The entries of a list; of two with one name the later counts. -/
def ofList (es : List (String × α)) : Entries α :=
  es.foldl (fun acc e => put e.1 e.2 acc) []

def names (es : Entries α) : List String :=
  es.map Prod.fst

def Sorted (es : Entries α) : Prop :=
  es.Pairwise fun a b => a.1 < b.1

@[simp] theorem value?_nil (name : String) : value? name ([] : Entries α) = none := rfl

theorem value?_put_self (name : String) (value : α) (es : Entries α) :
    value? name (put name value es) = some value := by
  induction es with
  | nil => simp [put, value?]
  | cons e rest ih =>
    obtain ⟨n, v⟩ := e
    by_cases hlt : name < n
    · simp [put, hlt, value?]
    · by_cases heq : n = name
      · simp [put, heq, value?]
      · simp [put, hlt, heq, value?, ih]

theorem value?_put_of_ne {name other : String} (h : other ≠ name) (value : α) (es : Entries α) :
    value? other (put name value es) = value? other es := by
  have hname : name ≠ other := fun e => h e.symm
  induction es with
  | nil => simp [put, value?, hname]
  | cons e rest ih =>
    obtain ⟨n, v⟩ := e
    by_cases hlt : name < n
    · simp [put, hlt, value?, hname]
    · by_cases heq : n = name
      · subst heq
        simp [put, value?, hname]
      · simp [put, hlt, heq, value?, ih]

end Entries

end BlockScript
