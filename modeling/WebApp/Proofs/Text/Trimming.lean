import Mathlib.Data.List.DropRight
import Mathlib.Data.List.TakeWhile
import Mathlib.Tactic
import WebApp.Text.Basic

/-!
# Cutting and trimming texts

A text is cut where a part without the separator ends, and nowhere else; and what stands between
blanks, and has none at its ends, is what trimming leaves.
-/

namespace WebApp
namespace Text

/-! ## Cutting -/

theorem cut_append {sep : Char} {before : List Char} (hbefore : sep ∉ before)
    (after : List Char) : cut sep (before ++ sep :: after) = some (before, after) := by
  induction before with
  | nil => simp [cut]
  | cons c rest ih =>
      simp only [List.mem_cons, not_or] at hbefore
      rw [List.cons_append, cut, if_neg (Ne.symm hbefore.1), ih hbefore.2]
      rfl

theorem cut_eq_none_iff {sep : Char} {cs : List Char} : cut sep cs = none ↔ sep ∉ cs := by
  induction cs with
  | nil => simp [cut]
  | cons c rest ih =>
      by_cases hc : c = sep
      · simp [cut, hc]
      · simp [cut, hc, ih, Ne.symm hc]

theorem notMem_of_cut {sep : Char} {cs before after : List Char}
    (hcut : cut sep cs = some (before, after)) : sep ∉ before := by
  induction cs generalizing before with
  | nil => simp [cut] at hcut
  | cons c rest ih =>
      rw [cut] at hcut
      split at hcut
      next =>
        simp only [Option.some.injEq, Prod.mk.injEq] at hcut
        simp [← hcut.1]
      next hc =>
        obtain ⟨⟨front, back⟩, hrest, hparts⟩ := Option.map_eq_some_iff.mp hcut
        simp only [Prod.mk.injEq] at hparts
        obtain ⟨rfl, rfl⟩ := hparts
        rw [List.mem_cons, not_or]
        exact ⟨Ne.symm hc, ih hrest⟩

theorem splitOnce_eq_some_iff {sep : Char} {s before after : String} :
    splitOnce sep s = some (before, after) ↔
      s.toList = before.toList ++ sep :: after.toList ∧ sep ∉ before.toList := by
  constructor
  · intro hsplit
    obtain ⟨⟨front, back⟩, hcut, hparts⟩ := Option.map_eq_some_iff.mp hsplit
    simp only [Prod.mk.injEq] at hparts
    obtain ⟨rfl, rfl⟩ := hparts
    simp only [String.toList_ofList]
    exact ⟨append_of_cut hcut, notMem_of_cut hcut⟩
  · rintro ⟨hs, hbefore⟩
    rw [splitOnce, hs, cut_append hbefore]
    simp

theorem splitOnce_eq_none_iff {sep : Char} {s : String} :
    splitOnce sep s = none ↔ sep ∉ s.toList := by
  rw [splitOnce, Option.map_eq_none_iff, cut_eq_none_iff]

/-- Parts without the separator are the pieces of the text that puts it between them. -/
theorem pieces_intercalate {sep : Char} {parts : List String}
    (hparts : ∀ part ∈ parts, sep ∉ part.toList) (hne : parts ≠ []) :
    pieces sep (String.intercalate (String.singleton sep) parts) = parts := by
  have hchars : ∀ chars ∈ parts.map String.toList, sep ∉ chars := by
    intro chars hmem
    obtain ⟨part, hpart, rfl⟩ := List.mem_map.mp hmem
    exact hparts part hpart
  rw [pieces, String.toList_intercalate, String.toList_singleton,
    List.splitOn_intercalate sep hchars (by simpa using hne), List.map_map]
  exact (List.map_congr_left fun _ _ => String.ofList_toList).trans (List.map_id parts)

/-! ## Trimming -/

section Ends

variable {α : Type} {p : α → Bool} {before between after : List α} {x : α}

theorem dropWhile_of_head? (hbetween : ∀ x ∈ between.head?, p x = false) :
    between.dropWhile p = between := by
  cases between with
  | nil => rfl
  | cons x rest => rw [List.dropWhile_cons, hbetween x rfl, if_neg Bool.false_ne_true]

theorem rdropWhile_of_getLast? (hbetween : ∀ x ∈ between.getLast?, p x = false) :
    between.rdropWhile p = between := by
  rw [List.rdropWhile, dropWhile_of_head? (by simpa using hbetween), List.reverse_reverse]

/-- Dropping stops where something begins that does not begin with what is dropped. -/
theorem dropWhile_append_self (hbefore : ∀ x ∈ before, p x = true)
    (hbetween : ∀ x ∈ between.head?, p x = false) : (before ++ between).dropWhile p = between := by
  rw [List.dropWhile_append_of_pos hbefore, dropWhile_of_head? hbetween]

theorem rdropWhile_append_self (hbetween : ∀ x ∈ between.getLast?, p x = false)
    (hafter : ∀ x ∈ after, p x = true) : (between ++ after).rdropWhile p = between := by
  have hreversed : (after.reverse ++ between.reverse).dropWhile p = between.reverse := by
    apply dropWhile_append_self
    · simpa using hafter
    · simpa using hbetween
  rw [List.rdropWhile, List.reverse_append, hreversed, List.reverse_reverse]

/-- Nothing is dropped behind what is kept. -/
theorem dropWhile_append_cons (hx : p x = false) (before after : List α) :
    (before ++ x :: after).dropWhile p = before.dropWhile p ++ x :: after := by
  induction before with
  | nil => simp [hx]
  | cons y rest ih => by_cases hy : p y = true <;> simp [hy, ih]

theorem rdropWhile_append_cons (hx : p x = false) (before after : List α) :
    (before ++ x :: after).rdropWhile p = before ++ x :: after.rdropWhile p := by
  have hreversed := dropWhile_append_cons hx after.reverse before.reverse
  simp only [List.rdropWhile, List.reverse_append, List.reverse_cons, List.append_assoc,
    List.singleton_append, hreversed, List.reverse_reverse]

/-- It does not matter at which end dropping begins. -/
theorem dropWhile_rdropWhile (l : List α) :
    (l.rdropWhile p).dropWhile p = (l.dropWhile p).rdropWhile p := by
  by_cases hall : ∀ x ∈ l, p x = true
  · rw [List.rdropWhile_eq_nil_iff.mpr hall, List.dropWhile_eq_nil_iff.mpr hall]
    rfl
  · obtain ⟨before, x, after, rfl, hx⟩ :
        ∃ before x after, l = before ++ x :: after ∧ p x = false := by
      push Not at hall
      obtain ⟨x, hmem, hx⟩ := hall
      obtain ⟨before, after, hl⟩ := List.append_of_mem hmem
      exact ⟨before, x, after, hl, by simpa using hx⟩
    rw [rdropWhile_append_cons hx, dropWhile_append_cons hx, dropWhile_append_cons hx,
      rdropWhile_append_cons hx]

end Ends

/-- A text of nothing but blanks. -/
abbrev Blanks : Type := { s : String // ∀ c ∈ s.toList, isBlank c = true }

/-- No blank stands at either end of the text. -/
structure Trimmed (s : String) : Prop where
  first : ∀ c ∈ s.toList.head?, isBlank c = false
  last : ∀ c ∈ s.toList.getLast?, isBlank c = false

-- By the two characters at the ends, not by all characters that there are.
instance (s : String) : Decidable (Trimmed s) :=
  decidable_of_iff
    (s.toList.head?.all (fun c => !isBlank c) = true ∧
      s.toList.getLast?.all (fun c => !isBlank c) = true)
    (by
      simp only [Option.all_eq_true, Bool.not_eq_true']
      exact ⟨fun h => ⟨h.1, h.2⟩, fun h => ⟨h.first, h.last⟩⟩)

theorem trimBlanks_eq (cs : List Char) :
    trimBlanks cs = (cs.dropWhile isBlank).rdropWhile isBlank :=
  rfl

/-- Blanks that are dropped before do not count. -/
theorem trimBlanks_dropWhile (cs : List Char) :
    trimBlanks (cs.dropWhile isBlank) = trimBlanks cs := by
  rw [trimBlanks_eq, trimBlanks_eq, List.dropWhile_idempotent]

theorem trimBlanks_rdropWhile (cs : List Char) :
    trimBlanks (cs.rdropWhile isBlank) = trimBlanks cs := by
  rw [trimBlanks_eq, trimBlanks_eq, dropWhile_rdropWhile, List.rdropWhile_idempotent]

/-- What stands between blanks is left when a text is trimmed. -/
theorem trim_between (before after : Blanks) {s : String} (hs : Trimmed s) :
    trim (before.val ++ s ++ after.val) = s := by
  have hself : s.toList.dropWhile isBlank = s.toList := dropWhile_of_head? hs.first
  have hchars : trimBlanks (before.val ++ s ++ after.val).toList = s.toList := by
    rw [String.toList_append, String.toList_append, List.append_assoc, trimBlanks_eq,
      List.dropWhile_append_of_pos before.property, ← dropWhile_rdropWhile,
      rdropWhile_append_self hs.last after.property, hself]
  rw [trim, hchars, String.ofList_toList]

theorem trimmed_of_forall {s : String} (hs : ∀ c ∈ s.toList, isBlank c = false) : Trimmed s :=
  ⟨fun c hc => hs c (List.mem_of_mem_head? hc), fun c hc => hs c (List.mem_of_mem_getLast? hc)⟩

/-- What trimming takes away is blanks. -/
theorem exists_between_trim (s : String) :
    ∃ before after : Blanks, s = before.val ++ trim s ++ after.val := by
  have hbefore : ∀ c ∈ s.toList.takeWhile isBlank, isBlank c = true :=
    fun c hc => List.mem_takeWhile_imp hc
  have hafter : ∀ c ∈ (s.toList.dropWhile isBlank).rtakeWhile isBlank, isBlank c = true :=
    fun c hc => List.mem_rtakeWhile_imp hc
  refine ⟨⟨String.ofList (s.toList.takeWhile isBlank), by simpa using hbefore⟩,
    ⟨String.ofList ((s.toList.dropWhile isBlank).rtakeWhile isBlank), by simpa using hafter⟩, ?_⟩
  apply String.toList_injective
  simp only [String.toList_append, String.toList_ofList, trim, trimBlanks_eq, List.append_assoc]
  rw [List.rdropWhile_append_rtakeWhile, List.takeWhile_append_dropWhile]

/-- Where both parts of a text are trimmed, it may be trimmed before it is cut. -/
theorem map_trim_splitOnce_trim {sep : Char} (hsep : isBlank sep = false) (s : String) :
    (splitOnce sep (trim s)).map (fun parts => (trim parts.1, trim parts.2)) =
      (splitOnce sep s).map fun parts => (trim parts.1, trim parts.2) := by
  cases hsplit : splitOnce sep s with
  | none =>
      have hchars : sep ∉ (trim s).toList := by
        intro hmem
        rw [trim, String.toList_ofList, trimBlanks_eq] at hmem
        have hdropped := (List.rdropWhile_prefix isBlank _).subset hmem
        exact splitOnce_eq_none_iff.mp hsplit ((List.dropWhile_suffix isBlank).subset hdropped)
      rw [splitOnce_eq_none_iff.mpr hchars]
  | some parts =>
      obtain ⟨before, after⟩ := parts
      obtain ⟨hs, hbefore⟩ := splitOnce_eq_some_iff.mp hsplit
      have hcut : cut sep (trimBlanks s.toList) =
          some (before.toList.dropWhile isBlank, after.toList.rdropWhile isBlank) := by
        rw [hs, trimBlanks_eq, dropWhile_append_cons hsep, rdropWhile_append_cons hsep]
        exact cut_append (fun hmem => hbefore ((List.dropWhile_suffix isBlank).subset hmem)) _
      simp only [splitOnce, trim, String.toList_ofList, hcut, Option.map_some,
        trimBlanks_dropWhile, trimBlanks_rdropWhile]

end Text
end WebApp
