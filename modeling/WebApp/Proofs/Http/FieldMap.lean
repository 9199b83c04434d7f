import Mathlib.Data.Finmap
import Mathlib.Tactic
import WebApp.Http.Headers

/-!
# Header fields as a map

What a map of header fields answers depends on nothing but the list of values that each name has.
Seen so it is a finite map from names in lower case to lists of values, and the ways to change it
are those of such a map: a value is added to a list, a list is replaced, lists are laid over
others, a list is taken out.  The order between fields of different names, and how a name is
spelled, only show in the message head; no change touches them for names that it does not mention.
-/

namespace WebApp

/-- The values of each name, in order.  Names are in lower case. -/
abbrev FieldMap := Finmap fun _ : String => List String

namespace FieldMap

/-- The values under a key; none when there is no such key. -/
def listed (m : FieldMap) (key : String) : List String :=
  (m.lookup key).getD []

def values (m : FieldMap) (name : String) : List String :=
  m.listed (Text.fold name)

/-- One more value of a name. -/
def add (m : FieldMap) (name value : String) : FieldMap :=
  Finmap.insert (Text.fold name) (m.values name ++ [value]) m

/-- The one value of a name. -/
def put (m : FieldMap) (name value : String) : FieldMap :=
  Finmap.insert (Text.fold name) [value] m

def delete (m : FieldMap) (name : String) : FieldMap :=
  Finmap.erase (Text.fold name) m

/-- The lists of another map in place of those under the same names. -/
def overlay (m other : FieldMap) : FieldMap :=
  other ∪ m

/-- Values put in one after another. -/
def ofList (entries : List (String × String)) : FieldMap :=
  entries.foldl (fun m entry => m.add entry.1 entry.2) ∅

/-- The number of values of all names. -/
def size (m : FieldMap) : Nat :=
  ∑ key ∈ m.keys, (m.listed key).length

theorem lookup_add (m : FieldMap) (name value key : String) :
    (m.add name value).lookup key =
      if key = Text.fold name then some (m.listed key ++ [value]) else m.lookup key := by
  unfold add
  split
  next hkey =>
    subst hkey
    exact Finmap.lookup_insert m
  next hkey => exact Finmap.lookup_insert_of_ne m hkey

theorem listed_add (m : FieldMap) (name value key : String) :
    (m.add name value).listed key =
      m.listed key ++ if key = Text.fold name then [value] else [] := by
  rw [listed, lookup_add]
  split <;> simp [listed]

theorem lookup_put (m : FieldMap) (name value key : String) :
    (m.put name value).lookup key =
      if key = Text.fold name then some [value] else m.lookup key := by
  unfold put
  split
  next hkey =>
    subst hkey
    exact Finmap.lookup_insert m
  next hkey => exact Finmap.lookup_insert_of_ne m hkey

theorem lookup_delete (m : FieldMap) (name key : String) :
    (m.delete name).lookup key = if key = Text.fold name then none else m.lookup key := by
  unfold delete
  split
  next hkey =>
    subst hkey
    exact Finmap.lookup_erase _ m
  next hkey => exact Finmap.lookup_erase_ne hkey

theorem lookup_overlay (m other : FieldMap) (key : String) :
    (m.overlay other).lookup key = if key ∈ other then other.lookup key else m.lookup key := by
  unfold overlay
  split
  next hmem => exact Finmap.lookup_union_left hmem
  next hmem => exact Finmap.lookup_union_right hmem

theorem keys_add (m : FieldMap) (name value : String) :
    (m.add name value).keys = insert (Text.fold name) m.keys := by
  ext key
  rw [add, Finmap.mem_keys, Finmap.mem_insert, Finset.mem_insert, Finmap.mem_keys]

theorem listed_eq_nil_of_notMem {m : FieldMap} {key : String} (hkey : key ∉ m) :
    m.listed key = [] := by
  rw [listed, Finmap.lookup_eq_none.mpr hkey]
  rfl

theorem size_add (m : FieldMap) (name value : String) :
    (m.add name value).size = m.size + 1 := by
  have hlength : ∀ key, ((m.add name value).listed key).length =
      (m.listed key).length + if key = Text.fold name then 1 else 0 := by
    intro key
    rw [listed_add, List.length_append]
    split <;> rfl
  have hnew : Text.fold name ∉ m.keys → (m.listed (Text.fold name)).length = 0 := by
    intro hnew
    rw [Finmap.mem_keys] at hnew
    rw [listed_eq_nil_of_notMem hnew, List.length_nil]
  unfold size
  simp only [keys_add, hlength, Finset.sum_add_distrib, Finset.sum_ite_eq', Finset.mem_insert,
    true_or, if_true]
  rw [Finset.sum_insert_of_eq_zero_if_notMem hnew]

end FieldMap

namespace Headers

/-- The map of the values that the names have. -/
def fields (h : Headers) : FieldMap :=
  FieldMap.ofList h.entries

/-- The values of the names that are this one in lower case. -/
def valuesAt (key : String) (entries : List (String × String)) : List String :=
  (entries.filter fun entry => Text.fold entry.1 = key).map Prod.snd

@[simp] theorem valuesAt_nil (key : String) : valuesAt key [] = [] := rfl

theorem valuesAt_cons (key : String) (entry : String × String) (rest : List (String × String)) :
    valuesAt key (entry :: rest) =
      if Text.fold entry.1 = key then entry.2 :: valuesAt key rest else valuesAt key rest := by
  unfold valuesAt
  by_cases hkey : Text.fold entry.1 = key <;> simp [hkey]

theorem valuesAt_append (key : String) (first second : List (String × String)) :
    valuesAt key (first ++ second) = valuesAt key first ++ valuesAt key second := by
  simp [valuesAt]

/-- The first value of a name is the first of all its values. -/
theorem get?_eq_head? (h : Headers) (name : String) : h.get? name = (h.getAll name).head? := by
  rw [getAll, List.head?_map, List.head?_filter, get?]

theorem named_iff (name : String) (entry : String × String) :
    named name entry = true ↔ Text.fold entry.1 = Text.fold name := by
  simp [named, Text.sameFolded]

theorem named_eq (name : String) (entry : String × String) :
    named name entry = decide (Text.fold entry.1 = Text.fold name) := by
  rw [named, Text.sameFolded, beq_eq_decide]

theorem getAll_eq (h : Headers) (name : String) :
    h.getAll name = valuesAt (Text.fold name) h.entries := by
  rw [getAll, valuesAt, funext (named_eq name)]

/-- A list of values as it stands in a map: a name without values is not there. -/
def present? : List String → Option (List String)
  | [] => none
  | value :: rest => some (value :: rest)

theorem fields_insert (h : Headers) (name value : String) :
    (h.insert name value).fields = h.fields.add name value := by
  simp [fields, insert, FieldMap.ofList]

theorem lookup_fields (h : Headers) (key : String) :
    h.fields.lookup key = present? (valuesAt key h.entries) := by
  obtain ⟨entries⟩ := h
  induction entries using List.reverseRecOn with
  | nil => rfl
  | append_singleton entries entry ih =>
      have hinsert : (⟨entries ++ [entry]⟩ : Headers) = insert ⟨entries⟩ entry.1 entry.2 := rfl
      simp only at ih
      rw [hinsert, fields_insert, FieldMap.lookup_add, FieldMap.listed, ih, insert, valuesAt_append,
        valuesAt_cons]
      by_cases hkey : key = Text.fold entry.1
      · rw [if_pos hkey, if_pos hkey.symm]
        cases valuesAt key entries <;> rfl
      · rw [if_neg hkey, if_neg (Ne.symm hkey), valuesAt_nil, List.append_nil]

theorem listed_fields (h : Headers) (key : String) :
    h.fields.listed key = valuesAt key h.entries := by
  rw [FieldMap.listed, lookup_fields]
  cases valuesAt key h.entries <;> rfl

theorem contains_iff (h : Headers) (name : String) :
    h.contains name = true ↔ valuesAt (Text.fold name) h.entries ≠ [] := by
  simp [contains, valuesAt, named_iff]

theorem mem_fields_iff (h : Headers) (key : String) :
    key ∈ h.fields ↔ valuesAt key h.entries ≠ [] := by
  rw [← Finmap.lookup_isSome, lookup_fields]
  cases valuesAt key h.entries <;> simp [present?]

theorem size_fields (h : Headers) : h.fields.size = h.size := by
  obtain ⟨entries⟩ := h
  induction entries using List.reverseRecOn with
  | nil => rfl
  | append_singleton entries entry ih =>
      have hinsert : (⟨entries ++ [entry]⟩ : Headers) = insert ⟨entries⟩ entry.1 entry.2 := rfl
      rw [hinsert, fields_insert, FieldMap.size_add, ih]
      simp [size, insert]

/-! ## The changes as changes of the map -/

theorem valuesAt_setEntries (name value key : String) (entries : List (String × String)) :
    valuesAt key (setEntries name value entries) =
      if key = Text.fold name then [value] else valuesAt key entries := by
  induction entries with
  | nil =>
      rw [setEntries, valuesAt_cons]
      simp only [eq_comm, valuesAt_nil]
  | cons entry rest ih =>
      rw [setEntries]
      split
      next hnamed =>
        -- The first field of the name stays; behind it there is none of that name.
        rw [named_iff] at hnamed
        have hrest : valuesAt key (rest.filter fun other => !named name other) =
            if key = Text.fold name then [] else valuesAt key rest := by
          unfold valuesAt
          rw [List.filter_filter]
          split
          next hkey => simp [hkey, named, Text.sameFolded]
          next hkey =>
            congr 1
            apply List.filter_congr
            intro other _
            by_cases hother : Text.fold other.1 = key
            · simp [hother, named, Text.sameFolded, hkey]
            · simp [hother]
        rw [valuesAt_cons, valuesAt_cons, hrest, hnamed]
        by_cases hkey : key = Text.fold name
        · simp [hkey]
        · simp [hkey, Ne.symm hkey]
      next hnamed =>
        rw [named_iff] at hnamed
        rw [valuesAt_cons, valuesAt_cons, ih]
        by_cases hkey : key = Text.fold name
        · simp [hkey, hnamed]
        · simp [hkey]

theorem getAll_set (h : Headers) (name value other : String) :
    (h.set name value).getAll other =
      if Text.fold other = Text.fold name then [value] else h.getAll other := by
  rw [getAll_eq, getAll_eq, set, valuesAt_setEntries]

theorem fields_set (h : Headers) (name value : String) :
    (h.set name value).fields = h.fields.put name value := by
  apply Finmap.ext_lookup
  intro key
  rw [FieldMap.lookup_put, lookup_fields, lookup_fields, set, valuesAt_setEntries]
  split <;> rfl

theorem valuesAt_remove (h : Headers) (name key : String) :
    valuesAt key (h.remove name).entries =
      if key = Text.fold name then [] else valuesAt key h.entries := by
  unfold valuesAt remove
  rw [List.filter_filter]
  split
  next hkey => simp [hkey, named_eq]
  next hkey =>
    congr 1
    apply List.filter_congr
    intro entry _
    by_cases hentry : Text.fold entry.1 = key
    · simp [hentry, named_eq, hkey]
    · simp [hentry]

theorem fields_remove (h : Headers) (name : String) :
    (h.remove name).fields = h.fields.delete name := by
  apply Finmap.ext_lookup
  intro key
  rw [FieldMap.lookup_delete, lookup_fields, lookup_fields, valuesAt_remove]
  split <;> rfl

/-- The names of another map are those that `merge` takes out. -/
theorem valuesAt_outside (h other : Headers) (key : String) :
    valuesAt key (h.entries.filter fun entry => !other.contains entry.1) =
      if key ∈ other.fields then [] else valuesAt key h.entries := by
  have hcontains : ∀ entry : String × String, Text.fold entry.1 = key →
      (other.contains entry.1 = true ↔ key ∈ other.fields) := by
    intro entry hentry
    rw [contains_iff, mem_fields_iff, hentry]
  unfold valuesAt
  rw [List.filter_filter]
  split
  next hmem =>
    rw [List.map_eq_nil_iff, List.filter_eq_nil_iff]
    intro entry _ hboth
    rw [Bool.and_eq_true, decide_eq_true_iff, Bool.not_eq_true'] at hboth
    rw [(hcontains entry hboth.1).mpr hmem] at hboth
    exact Bool.noConfusion hboth.2
  next hmem =>
    congr 1
    apply List.filter_congr
    intro entry _
    by_cases hentry : Text.fold entry.1 = key
    · have hout := (hcontains entry hentry).not.mpr hmem
      rw [Bool.not_eq_true] at hout
      rw [hout, Bool.not_false, Bool.and_true]
    · simp [hentry]

theorem fields_merge (h other : Headers) :
    (h.merge other).fields = h.fields.overlay other.fields := by
  apply Finmap.ext_lookup
  intro key
  rw [FieldMap.lookup_overlay, lookup_fields, entries_merge, valuesAt_append, valuesAt_outside]
  split
  next hmem => rw [List.nil_append, lookup_fields]
  next hmem =>
    rw [mem_fields_iff, not_not] at hmem
    rw [hmem, List.append_nil, lookup_fields]

/-- Laid over itself, a map of fields is what it was. -/
theorem merge_self (h : Headers) : h.merge h = h := by
  have hnone : (h.entries.filter fun entry => !h.contains entry.1) = [] := by
    rw [List.filter_eq_nil_iff]
    intro entry hentry
    rw [Bool.not_eq_true, Bool.not_eq_false', contains, List.any_eq_true]
    exact ⟨entry, hentry, Text.sameFolded_self entry.1⟩
  have hentries : (h.merge h).entries = h.entries := by
    rw [entries_merge, hnone, List.nil_append]
  exact congrArg Headers.mk hentries

/-! ## Sequences of changes -/

/-- A way to change a map of fields. -/
inductive Edit where
  | insert (name value : String)
  | set (name value : String)
  | merge (other : Headers)
  | mergeSelf
  | remove (name : String)
  | collect (entries : List (String × String))

namespace Edit

def apply (h : Headers) : Edit → Headers
  | insert name value => h.insert name value
  | set name value => h.set name value
  | merge other => h.merge other
  | mergeSelf => h.merge h
  | remove name => h.remove name
  | collect entries => .ofList entries

/-- The same change of a map of values. -/
def applyTo (m : FieldMap) : Edit → FieldMap
  | insert name value => m.add name value
  | set name value => m.put name value
  | merge other => m.overlay other.fields
  | mergeSelf => m.overlay m
  | remove name => m.delete name
  | collect entries => .ofList entries

/-- Whether a change of these fields is about a name. -/
def mentions (h : Headers) : Edit → String → Bool
  | insert name _, other | set name _, other | remove name, other => Text.sameFolded other name
  | merge added, other => added.contains other
  | mergeSelf, other => h.contains other
  | collect _, _ => true

theorem fields_apply (h : Headers) (edit : Edit) :
    (edit.apply h).fields = edit.applyTo h.fields := by
  cases edit with
  | insert name value => exact fields_insert h name value
  | set name value => exact fields_set h name value
  | merge other => exact fields_merge h other
  | mergeSelf => exact fields_merge h h
  | remove name => exact fields_remove h name
  | collect entries => rfl

/-- After a sequence of changes the values are those of the map that was changed alike. -/
theorem fields_foldl (edits : List Edit) (h : Headers) :
    (edits.foldl apply h).fields = edits.foldl applyTo h.fields := by
  induction edits generalizing h with
  | nil => rfl
  | cons edit rest ih => rw [List.foldl_cons, List.foldl_cons, ih, fields_apply]

/-- The fields of the names that a change is not about. -/
def untouched (h : Headers) (edit : Edit) (entries : List (String × String)) :
    List (String × String) :=
  entries.filter fun entry => !edit.mentions h entry.1

theorem untouched_append (h : Headers) (edit : Edit) (first second : List (String × String)) :
    edit.untouched h (first ++ second) = edit.untouched h first ++ edit.untouched h second :=
  List.filter_append first second

/-- Fields that are all mentioned do not count. -/
theorem untouched_eq_nil {h : Headers} {edit : Edit} {entries : List (String × String)}
    (hmentioned : ∀ entry ∈ entries, edit.mentions h entry.1 = true) :
    edit.untouched h entries = [] := by
  unfold untouched
  rw [List.filter_eq_nil_iff]
  intro entry hentry
  rw [hmentioned entry hentry]
  exact Bool.false_ne_true

/-- Fields that a filter takes out do not count either when only mentioned ones are. -/
theorem untouched_filter {h : Headers} {edit : Edit} {keeps : String × String → Bool}
    (hkeeps : ∀ entry, keeps entry = false → edit.mentions h entry.1 = true)
    (entries : List (String × String)) :
    edit.untouched h (entries.filter keeps) = edit.untouched h entries := by
  unfold untouched
  rw [List.filter_filter]
  apply List.filter_congr
  intro entry _
  cases hkept : keeps entry
  · rw [hkeeps entry hkept]
    rfl
  · rw [Bool.and_true]

theorem untouched_setEntries (h : Headers) (name value : String)
    (entries : List (String × String)) :
    (set name value).untouched h (setEntries name value entries) =
      (set name value).untouched h entries := by
  induction entries with
  | nil =>
      apply untouched_eq_nil
      intro entry hentry
      rw [List.mem_singleton.mp hentry]
      exact Text.sameFolded_self name
  | cons entry rest ih =>
      rw [setEntries]
      split
      next hnamed =>
        have hrest : (set name value).untouched h (rest.filter fun other => !named name other) =
            (set name value).untouched h rest := by
          apply untouched_filter
          intro other hkept
          rw [Bool.not_eq_false'] at hkept
          exact hkept
        have hmentioned : mentions h (set name value) entry.1 = true := hnamed
        unfold untouched at hrest ⊢
        rw [List.filter_cons, List.filter_cons, hrest]
        simp only [hmentioned, Bool.not_true, Bool.false_eq_true, if_false]
      next hnamed =>
        unfold untouched at ih ⊢
        rw [List.filter_cons, List.filter_cons, ih]

/-- A change leaves the fields that it is not about, each as it is spelled, in their order. -/
theorem untouched_apply (h : Headers) (edit : Edit) :
    edit.untouched h (edit.apply h).entries = edit.untouched h h.entries := by
  cases edit with
  | insert name value =>
      have hnew : (insert name value).untouched h [(name, value)] = [] := by
        apply untouched_eq_nil
        intro entry hentry
        rw [List.mem_singleton.mp hentry]
        exact Text.sameFolded_self name
      rw [apply, Headers.insert, untouched_append, hnew, List.append_nil]
  | set name value => exact untouched_setEntries h name value h.entries
  | merge other =>
      have hadded : (merge other).untouched h other.entries = [] := by
        apply untouched_eq_nil
        intro entry hentry
        exact List.any_eq_true.mpr ⟨entry, hentry, Text.sameFolded_self entry.1⟩
      rw [apply, entries_merge, untouched_append, hadded, List.append_nil]
      apply untouched_filter
      intro entry hkept
      rw [Bool.not_eq_false'] at hkept
      exact hkept
  | mergeSelf => rw [apply, merge_self]
  | remove name =>
      apply untouched_filter
      intro entry hkept
      rw [Bool.not_eq_false'] at hkept
      exact hkept
  | collect entries =>
      rw [untouched_eq_nil fun _ _ => rfl, untouched_eq_nil fun _ _ => rfl]

end Edit

/-- The answers of a map of fields are those of a map of values. -/
structure Agrees (h : Headers) (m : FieldMap) : Prop where
  getAll : ∀ name, h.getAll name = m.values name
  get : ∀ name, h.get? name = (m.values name).head?
  contains : ∀ name, h.contains name = decide (Text.fold name ∈ m)
  removes : ∀ name, h.removes name = decide (Text.fold name ∈ m)
  size : h.size = m.size
  isEmpty : h.isEmpty = decide (m = ∅)

theorem contains_eq (h : Headers) (name : String) :
    h.contains name = decide (Text.fold name ∈ h.fields) := by
  rw [Bool.eq_iff_iff, decide_eq_true_iff, contains_iff, mem_fields_iff]

/-- A field is taken out just when there is one of that name. -/
theorem removes_eq_contains (h : Headers) (name : String) : h.removes name = h.contains name := by
  rw [Bool.eq_iff_iff, removes, decide_eq_true_iff, size, size, remove, contains,
    List.length_filter_lt_length_iff_exists, List.any_eq_true]
  simp

theorem isEmpty_eq (h : Headers) : h.isEmpty = decide (h.fields = ∅) := by
  rw [Bool.eq_iff_iff, decide_eq_true_iff, isEmpty, List.isEmpty_iff]
  constructor
  · intro hnil
    rw [fields, hnil]
    rfl
  · intro hempty
    have hsize := size_fields h
    rw [hempty] at hsize
    exact List.eq_nil_of_length_eq_zero hsize.symm

/-- A map of fields answers as the map of its values does. -/
theorem agrees_fields (h : Headers) : Agrees h h.fields where
  getAll := by
    intro name
    rw [getAll_eq, FieldMap.values, listed_fields]
  get := by
    intro name
    rw [FieldMap.values, listed_fields, ← getAll_eq, get?_eq_head?]
  contains := contains_eq h
  removes := by
    intro name
    rw [removes_eq_contains, contains_eq]
  size := (size_fields h).symm
  isEmpty := isEmpty_eq h

/-- Whatever the changes were, the answers are those of the map of values that was changed alike,
and the next change leaves the fields of the names that it does not mention as they are and in
their order. -/
theorem edits_agree (edits : List Edit) (edit : Edit) :
    let h := edits.foldl Edit.apply empty
    Agrees h (edits.foldl Edit.applyTo ∅) ∧
      edit.untouched h (edit.apply h).entries = edit.untouched h h.entries := by
  intro h
  constructor
  · have hfields : h.fields = edits.foldl Edit.applyTo ∅ := Edit.fields_foldl edits empty
    rw [← hfields]
    exact agrees_fields h
  · exact Edit.untouched_apply h edit

end Headers
end WebApp
