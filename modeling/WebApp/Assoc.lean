/-!
# Keyed values in the order of their first entry
-/

namespace WebApp.Assoc

universe u

/-- The value under a key: replaced where the key is, appended where it is not. -/
def insert {κ : Type} {α : Type u} [DecidableEq κ] (key : κ) (value : α) : List (κ × α) → List (κ × α)
  | [] => [(key, value)]
  | (k, v) :: rest => if k = key then (k, value) :: rest else (k, v) :: insert key value rest

/-- Entries put in one after another; of several with one key the last counts. -/
def ofList {κ : Type} {α : Type u} [DecidableEq κ] (entries : List (κ × α)) : List (κ × α) :=
  entries.foldl (fun table (k, v) => insert k v table) []

/-- The entries without those under a key. -/
def erase {κ : Type} {α : Type u} [DecidableEq κ] (key : κ) (entries : List (κ × α)) : List (κ × α) :=
  entries.filter fun entry => entry.1 ≠ key

def get? {κ : Type} {α : Type u} [DecidableEq κ] (key : κ) : List (κ × α) → Option α
  | [] => none
  | (k, v) :: rest => if k = key then some v else get? key rest

def contains {κ : Type} {α : Type u} [DecidableEq κ] (key : κ) (entries : List (κ × α)) : Bool :=
  (get? key entries).isSome

@[simp] theorem get?_insert_self {κ : Type} {α : Type u} [DecidableEq κ] (key : κ) (value : α)
    (entries : List (κ × α)) : get? key (insert key value entries) = some value := by
  induction entries with
  | nil => simp [insert, get?]
  | cons entry rest ih =>
    obtain ⟨k, v⟩ := entry
    by_cases h : k = key <;> simp [insert, get?, h, ih]

theorem get?_insert_of_ne {κ : Type} {α : Type u} [DecidableEq κ] {key other : κ} (h : other ≠ key)
    (value : α) (entries : List (κ × α)) :
    get? other (insert key value entries) = get? other entries := by
  induction entries with
  | nil => simp [insert, get?, h.symm]
  | cons entry rest ih =>
    obtain ⟨k, v⟩ := entry
    by_cases hk : k = key
    · subst hk
      simp [insert, get?, h.symm]
    · by_cases ho : k = other
      · subst ho
        simp [insert, get?, hk]
      · simp [insert, get?, hk, ho, ih]

end WebApp.Assoc
