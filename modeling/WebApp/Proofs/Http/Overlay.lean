import Mathlib.Tactic
import WebApp.Proofs.Http.FieldMap

/-!
# Maps of header fields laid over one another

The layers of a program lay maps of fields over those of a response, or set single fields one
after another.  How maps are grouped that are laid over one another does not matter, and neither
does a map that is laid over itself or an empty one.  This holds of the lists of fields, with their
order and spelling.  Fields that are set have one value each, and to set them again changes nothing.
-/

namespace WebApp
namespace Headers

theorem contains_eq_false_iff (h : Headers) (name : String) :
    h.contains name = false ↔ ∀ field ∈ h.entries, Text.fold field.1 ≠ Text.fold name := by
  simp only [contains, List.any_eq_false, named_iff, ne_eq]

/-! ## Merging -/

theorem contains_merge (h other : Headers) (name : String) :
    (h.merge other).contains name = (other.contains name || h.contains name) := by
  rw [contains_eq, contains_eq, contains_eq, fields_merge, FieldMap.overlay, ← Bool.decide_or]
  exact decide_eq_decide.mpr Finmap.mem_union

/-- What is left of the first map of three is what neither of the others mentions. -/
theorem merge_assoc (a b c : Headers) : (a.merge b).merge c = a.merge (b.merge c) := by
  have hentries : ((a.merge b).merge c).entries = (a.merge (b.merge c)).entries := by
    rw [entries_merge, entries_merge a b, entries_merge a, entries_merge b c, List.filter_append,
      List.filter_filter, List.append_assoc]
    simp only [contains_merge, Bool.not_or]
  exact congrArg Headers.mk hentries

theorem merge_empty (h : Headers) : h.merge empty = h := by
  have hentries : (h.merge empty).entries = h.entries := by
    rw [entries_merge]
    simp [empty, contains]
  exact congrArg Headers.mk hentries

theorem empty_merge (h : Headers) : empty.merge h = h := by
  have hentries : (empty.merge h).entries = h.entries := by
    rw [entries_merge]
    rfl
  exact congrArg Headers.mk hentries

/-- A map with one field, laid over another, leaves the values that setting the field does. -/
theorem fields_merge_single (h : Headers) (name value : String) :
    (h.merge (ofList [(name, value)])).fields = (h.set name value).fields := by
  have hone : (ofList [(name, value)]).fields = (∅ : FieldMap).add name value := rfl
  rw [fields_merge, fields_set, hone]
  apply Finmap.ext_lookup
  intro key
  have hmem : key ∈ (∅ : FieldMap).add name value ↔ key = Text.fold name := by
    rw [FieldMap.add, Finmap.mem_insert]
    exact or_iff_left (Finmap.notMem_empty)
  rw [FieldMap.lookup_overlay, FieldMap.lookup_put, FieldMap.lookup_add]
  simp only [hmem]
  split
  next => rfl
  next => rfl

/-- Merging groups as it likes, leaves a map alone that it is given twice or with nothing, and puts
the fields of the second map, in their order, behind those of the first whose names the second
does not have.  Setting one field gives the same values and the same number of fields as merging
a map that has just this one. -/
theorem merge_idempotentMonoid (a b c : Headers) (name value : String) :
    (a.merge b).merge c = a.merge (b.merge c) ∧
    a.merge empty = a ∧ empty.merge a = a ∧ a.merge a = a ∧
    (a.merge b).entries =
      (a.entries.filter fun entry =>
        ∀ field ∈ b.entries, Text.fold field.1 ≠ Text.fold entry.1) ++ b.entries ∧
    (∀ other, (a.set name value).getAll other =
      (a.merge (ofList [(name, value)])).getAll other) ∧
    (∀ other, (a.set name value).contains other =
      (a.merge (ofList [(name, value)])).contains other) ∧
    (a.set name value).size = (a.merge (ofList [(name, value)])).size := by
  have hfields := fields_merge_single a name value
  have hset := agrees_fields (a.set name value)
  have hmerged := agrees_fields (a.merge (ofList [(name, value)]))
  rw [hfields] at hmerged
  refine ⟨merge_assoc a b c, merge_empty a, empty_merge a, merge_self a, ?_, ?_, ?_, ?_⟩
  · rw [entries_merge]
    congr 1
    apply List.filter_congr
    intro entry _
    rw [Bool.eq_iff_iff, Bool.not_eq_true', contains_eq_false_iff, decide_eq_true_iff]
  · intro other
    rw [hset.getAll, hmerged.getAll]
  · intro other
    rw [hset.contains, hmerged.contains]
  · rw [hset.size, hmerged.size]

/-- Of two fields that differ in case one is replaced and the other one kept as it is spelled. -/
example :
    (ofList [("X-A", "1"), ("x-b", "2"), ("x-a", "3")]).merge
        (ofList [("X-B", "4"), ("X-C", "5")]) =
      ofList [("X-A", "1"), ("x-a", "3"), ("X-B", "4"), ("X-C", "5")] := by
  decide

/-! ## Setting several fields -/

def setEach (h : Headers) (fields : List (String × String)) : Headers :=
  fields.foldl (fun h field => h.set field.1 field.2) h

theorem setEach_cons (h : Headers) (field : String × String) (fields : List (String × String)) :
    h.setEach (field :: fields) = (h.set field.1 field.2).setEach fields :=
  rfl

theorem setEach_append (h : Headers) (first second : List (String × String)) :
    h.setEach (first ++ second) = (h.setEach first).setEach second :=
  List.foldl_append

theorem getAll_setEach_of_forall_ne (h : Headers) {name : String}
    {fields : List (String × String)}
    (hname : ∀ field ∈ fields, Text.fold name ≠ Text.fold field.1) :
    (h.setEach fields).getAll name = h.getAll name := by
  induction fields generalizing h with
  | nil => rfl
  | cons field rest ih =>
      rw [List.forall_mem_cons] at hname
      rw [setEach_cons, ih _ hname.2, getAll_set, if_neg hname.1]

/-- Each of several fields with different names has its one value. -/
theorem getAll_setEach (h : Headers) {fields : List (String × String)}
    (hdistinct : fields.Pairwise fun first second => Text.fold first.1 ≠ Text.fold second.1) :
    ∀ field ∈ fields, (h.setEach fields).getAll field.1 = [field.2] := by
  induction fields generalizing h with
  | nil => simp
  | cons first rest ih =>
      rw [List.pairwise_cons] at hdistinct
      rw [List.forall_mem_cons]
      constructor
      · rw [setEach_cons, getAll_setEach_of_forall_ne _ hdistinct.1, getAll_set, if_pos rfl]
      · exact ih _ hdistinct.2

/-- Setting the one value that a name has changes nothing. -/
theorem set_eq_self {h : Headers} {name value : String} (hvalue : h.getAll name = [value]) :
    h.set name value = h := by
  have hentries : ∀ entries, valuesAt (Text.fold name) entries = [value] →
      setEntries name value entries = entries := by
    intro entries hvalues
    induction entries with
    | nil => simp at hvalues
    | cons entry rest ih =>
        rw [valuesAt_cons] at hvalues
        rw [setEntries]
        split
        next hnamed =>
          rw [if_pos ((named_iff name entry).mp hnamed), List.cons.injEq] at hvalues
          have hrest : (rest.filter fun other => !named name other) = rest := by
            rw [List.filter_eq_self]
            intro other hother
            have hnone := hvalues.2
            simp only [valuesAt, List.map_eq_nil_iff, List.filter_eq_nil_iff,
              decide_eq_true_eq] at hnone
            simp [named_eq, hnone other hother]
          rw [hrest, ← hvalues.1]
        next hnamed =>
          rw [named_iff] at hnamed
          rw [if_neg hnamed] at hvalues
          rw [ih hvalues]
  rw [getAll_eq] at hvalue
  exact congrArg Headers.mk (hentries h.entries hvalue)

theorem setEach_eq_self {h : Headers} {fields : List (String × String)}
    (hvalues : ∀ field ∈ fields, h.getAll field.1 = [field.2]) : h.setEach fields = h := by
  induction fields with
  | nil => rfl
  | cons field rest ih =>
      rw [List.forall_mem_cons] at hvalues
      rw [setEach_cons, set_eq_self hvalues.1, ih hvalues.2]

/-- The fields of other names, each as it is spelled, in their order. -/
def others (h : Headers) (names : List String) : List (String × String) :=
  h.entries.filter fun entry => ∀ name ∈ names, Text.fold entry.1 ≠ Text.fold name

theorem others_set (h : Headers) {names : List String} {name : String} (hname : name ∈ names)
    (value : String) : (h.set name value).others names = h.others names := by
  -- What the other names keep is kept by the name that is set.
  have hkeeps : ∀ entries : List (String × String),
      (entries.filter fun entry => ∀ name ∈ names, Text.fold entry.1 ≠ Text.fold name) =
        ((Edit.set name value).untouched h entries).filter fun entry =>
          ∀ name ∈ names, Text.fold entry.1 ≠ Text.fold name := by
    intro entries
    rw [Edit.untouched, List.filter_filter]
    apply List.filter_congr
    intro entry _
    by_cases hother : ∀ name ∈ names, Text.fold entry.1 ≠ Text.fold name
    · simp [Edit.mentions, Text.sameFolded, hother name hname]
    · simp [hother]
  rw [others, others, hkeeps, hkeeps h.entries]
  exact congrArg _ (Edit.untouched_apply h (Edit.set name value))

theorem others_setEach (h : Headers) (names : List String) {fields : List (String × String)}
    (hnames : fields.map Prod.fst ⊆ names) : (h.setEach fields).others names = h.others names := by
  induction fields generalizing h with
  | nil => rfl
  | cons field rest ih =>
      rw [List.map_cons, List.cons_subset] at hnames
      rw [setEach_cons, ih _ hnames.2, others_set h hnames.1]

end Headers
end WebApp
