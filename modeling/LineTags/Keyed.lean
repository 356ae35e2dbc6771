/-!
# Lists of named entries

Files, documents and settings are lists of pairs of a name and a value, each name once, in the order in which the names were first given. Looking up a name is `List.lookup`; this module holds the writing side.
-/

namespace LineTags.Keyed

variable {κ α : Type} [DecidableEq κ]

/-- Replaces the value of a name where it stands, or adds the entry at the end. -/
def put (name : κ) (value : α) : List (κ × α) → List (κ × α)
  | [] => [(name, value)]
  | (other, old) :: r => if other = name then (other, value) :: r else (other, old) :: put name value r

def remove (name : κ) (entries : List (κ × α)) : List (κ × α) := entries.filter fun e => e.1 ≠ name

def names (entries : List (κ × α)) : List κ := entries.map Prod.fst

/-- Changes the value of a name, if it has one. -/
def update (name : κ) (f : α → α) (entries : List (κ × α)) : List (κ × α) :=
  entries.map fun (other, value) => (other, if other = name then f value else value)

/-- Adds the entries of a list one after the other; a later value of a name wins. -/
def ofList (entries : List (κ × α)) : List (κ × α) := entries.foldl (fun r e => put e.1 e.2 r) []

theorem lookup_put [BEq κ] [LawfulBEq κ] (name other : κ) (value : α) (entries : List (κ × α)) :
    (put name value entries).lookup other = if other = name then some value else entries.lookup other := by
  induction entries with
  | nil =>
    by_cases h : other = name
    · simp [put, h]
    · have : (other == name) = false := by simp [h]
      simp [put, h, List.lookup_cons, this]
  | cons e r ih =>
    obtain ⟨k, v⟩ := e
    by_cases hk : k = name
    · subst hk
      by_cases ho : other = k
      · simp [put, ho]
      · have : (other == k) = false := by simp [ho]
        simp [put, ho, List.lookup_cons, this]
    · by_cases ho : other = k
      · subst ho
        simp [put, hk]
      · have : (other == k) = false := by simp [ho]
        simp [put, hk, List.lookup_cons, this, ih]

/-- Writing a name keeps the order of the names: a new one goes to the end. -/
theorem names_put (name : κ) (value : α) (entries : List (κ × α)) :
    names (put name value entries) = if name ∈ names entries then names entries else names entries ++ [name] := by
  induction entries with
  | nil => simp [put, names]
  | cons e r ih =>
    obtain ⟨k, v⟩ := e
    by_cases hk : k = name
    · simp [put, names, hk]
    · have : name ≠ k := fun h => hk h.symm
      simp only [names] at ih
      by_cases hm : name ∈ List.map Prod.fst r <;> simp_all [put, names]

end LineTags.Keyed
