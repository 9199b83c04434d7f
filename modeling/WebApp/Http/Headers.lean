import WebApp.Text.Basic

/-!
# Header fields

The fields of a message head in order.  Names are compared without regard to the case of
ASCII letters, and one name may have several values.
-/

namespace WebApp

/-- The header fields of a message, in order. -/
structure Headers where
  entries : List (String × String) := []
deriving DecidableEq, Inhabited, Repr

namespace Headers

def empty : Headers := {}

def ofList (entries : List (String × String)) : Headers := ⟨entries⟩

/-- Whether an entry is a field of this name. -/
def named (name : String) (entry : String × String) : Bool :=
  Text.sameFolded entry.1 name

/-- One more field at the end. -/
def insert (h : Headers) (name value : String) : Headers :=
  ⟨h.entries ++ [(name, value)]⟩

/-- The first field of the name with a new value, and no further field of that name. -/
def setEntries (name value : String) : List (String × String) → List (String × String)
  | [] => [(name, value)]
  | entry :: rest =>
    if named name entry then
      (entry.1, value) :: rest.filter fun other => !named name other
    else
      entry :: setEntries name value rest

/-- The one value of a name.  The first field of that name keeps its place and spelling. -/
def set (h : Headers) (name value : String) : Headers :=
  ⟨setEntries name value h.entries⟩

/-- The fields without those of the name. -/
def remove (h : Headers) (name : String) : Headers :=
  ⟨h.entries.filter fun entry => !named name entry⟩

def size (h : Headers) : Nat := h.entries.length

/-- Whether a field of the name is there. -/
def contains (h : Headers) (name : String) : Bool :=
  h.entries.any (named name)

/-- Whether removing the name takes a field out. -/
def removes (h : Headers) (name : String) : Bool :=
  (h.remove name).size < h.size

/-- The fields without those of the names of a list, each name removed once. -/
def removeEach (h : Headers) (removed : List String) : List (String × String) → Headers
  | [] => h
  | (name, _) :: rest =>
    if removed.any fun other => Text.sameFolded other name then
      removeEach h removed rest
    else
      removeEach (h.remove name) (removed ++ [name]) rest

/-- The fields with those of another map in place of the ones they share a name with. -/
def merge (h other : Headers) : Headers :=
  other.entries.foldl (fun h entry => h.insert entry.1 entry.2) (h.removeEach [] other.entries)

/-- The value of the first field of the name. -/
def get? (h : Headers) (name : String) : Option String :=
  (h.entries.find? (named name)).map Prod.snd

/-- The values of all fields of the name, in order. -/
def getAll (h : Headers) (name : String) : List String :=
  (h.entries.filter (named name)).map Prod.snd

def isEmpty (h : Headers) : Bool := h.entries.isEmpty

/-- A name that was removed before has no field left, so that skipping it is removing it. -/
theorem entries_removeEach (h : Headers) (removed : List String)
    (hremoved : ∀ name ∈ removed, ∀ entry ∈ h.entries, named name entry = false)
    (entries : List (String × String)) :
    (h.removeEach removed entries).entries =
      h.entries.filter fun entry => entries.all fun other => !named other.1 entry := by
  induction entries generalizing h removed with
  | nil => exact (List.filter_eq_self.mpr fun _ _ => rfl).symm
  | cons other rest ih =>
      rw [removeEach]
      split
      next hseen =>
        obtain ⟨name, hname, hsame⟩ := List.any_eq_true.mp hseen
        rw [ih h removed hremoved]
        apply List.filter_congr
        intro entry hentry
        have hnone := hremoved name hname entry hentry
        simp only [named, Text.sameFolded, beq_iff_eq, beq_eq_false_iff_ne] at hnone hsame
        simp [named, Text.sameFolded, ← hsame, hnone]
      next =>
        rw [ih]
        · simp [remove, List.filter_filter, Bool.and_comm]
        · intro name hname entry hentry
          simp only [remove, List.mem_filter, Bool.not_eq_eq_eq_not, Bool.not_true] at hentry
          rcases List.mem_append.mp hname with hold | hnew
          · exact hremoved name hold entry hentry.1
          · rw [List.mem_singleton.mp hnew]
            exact hentry.2

theorem entries_insertEach (h : Headers) (entries : List (String × String)) :
    (entries.foldl (fun h entry => h.insert entry.1 entry.2) h).entries = h.entries ++ entries := by
  induction entries generalizing h with
  | nil => exact (List.append_nil _).symm
  | cons entry rest ih =>
      rw [List.foldl_cons, ih, insert, List.append_assoc, List.singleton_append]

theorem entries_merge (h other : Headers) :
    (h.merge other).entries =
      (h.entries.filter fun entry => !other.contains entry.1) ++ other.entries := by
  have hcontains : ∀ entry : String × String,
      (other.entries.all fun field => !named field.1 entry) = !other.contains entry.1 := by
    intro entry
    rw [contains, List.all_eq_not_any_not]
    congr 2
    funext field
    rw [Bool.not_not, named, named, Text.sameFolded_comm]
  rw [merge, entries_insertEach, entries_removeEach h [] (by simp)]
  simp only [hcontains]

/-- One line for each field, as in a message head. -/
def text (h : Headers) : String :=
  String.join (h.entries.map fun (name, value) => name ++ ": " ++ value ++ "\r\n")

/-- The fields as they are shown inside a message about a program's data. -/
def shown (h : Headers) : String :=
  let pairs := h.entries.map fun (name, value) =>
    "(" ++ Text.quoted name ++ ", " ++ Text.quoted value ++ ")"
  "Headers \x7b inner: [" ++ String.intercalate ", " pairs ++ "] \x7d"

end Headers

end WebApp
