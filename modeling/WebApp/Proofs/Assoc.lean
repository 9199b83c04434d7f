import Mathlib.Tactic
import WebApp.Assoc

/-!
# Tables with distinct keys

A table that is built by insertion has each key once, and under it the value that was put in last.
Then the entries that a filter keeps are found as before, and those that it drops are gone.
-/

namespace WebApp
namespace Assoc

universe u

variable {κ : Type} {α : Type u} [DecidableEq κ]

theorem get?_eq_none_of_notMem {key : κ} {entries : List (κ × α)}
    (hkey : key ∉ entries.map Prod.fst) : get? key entries = none := by
  induction entries with
  | nil => rfl
  | cons entry rest ih =>
      simp only [List.map_cons, List.mem_cons, not_or] at hkey
      rw [get?, if_neg (Ne.symm hkey.1)]
      exact ih hkey.2

theorem get?_append (key : κ) (front back : List (κ × α)) :
    get? key (front ++ back) = (get? key front).or (get? key back) := by
  induction front with
  | nil => rfl
  | cons entry rest ih =>
      rw [List.cons_append, get?, get?]
      split
      next => rfl
      next => exact ih

theorem get?_filter (keep : κ × α → Bool) (key : κ) {entries : List (κ × α)}
    (hdistinct : (entries.map Prod.fst).Nodup) :
    get? key (entries.filter keep) = (get? key entries).filter fun value => keep (key, value) := by
  induction entries with
  | nil => rfl
  | cons entry rest ih =>
      rw [List.map_cons, List.nodup_cons] at hdistinct
      by_cases hkey : entry.1 = key
      · subst hkey
        by_cases hkeep : keep entry = true
        · simp [hkeep, get?, Option.filter]
        · -- The key is not among the entries behind.
          have hgone : entry.1 ∉ (rest.filter keep).map Prod.fst := by
            intro hmem
            apply hdistinct.1
            rw [List.mem_map] at hmem ⊢
            obtain ⟨other, hother, hsame⟩ := hmem
            exact ⟨other, List.mem_of_mem_filter hother, hsame⟩
          rw [List.filter_cons_of_neg hkeep, get?_eq_none_of_notMem hgone]
          simp [get?, Option.filter, hkeep]
      · by_cases hkeep : keep entry = true <;> simp [hkeep, get?, hkey, ih hdistinct.2]

theorem mem_of_get? {key : κ} {value : α} {entries : List (κ × α)}
    (hvalue : get? key entries = some value) : (key, value) ∈ entries := by
  induction entries with
  | nil => simp [get?] at hvalue
  | cons entry rest ih =>
      rw [get?] at hvalue
      split at hvalue
      next hkey =>
        rw [Option.some.injEq] at hvalue
        rw [← hkey, ← hvalue]
        exact List.mem_cons_self
      next => exact List.mem_cons_of_mem _ (ih hvalue)

theorem eq_or_mem_of_mem_insert {key : κ} {value : α} {entry : κ × α} {entries : List (κ × α)}
    (hentry : entry ∈ insert key value entries) : entry = (key, value) ∨ entry ∈ entries := by
  induction entries with
  | nil => simpa [insert] using hentry
  | cons first rest ih =>
      rw [insert] at hentry
      split at hentry
      next hkey =>
        rw [List.mem_cons, hkey] at hentry
        exact hentry.imp_right (List.mem_cons_of_mem _)
      next =>
        rcases List.mem_cons.mp hentry with rfl | hrest
        · exact .inr List.mem_cons_self
        · exact (ih hrest).imp_right (List.mem_cons_of_mem _)

theorem keys_insert (key : κ) (value : α) (entries : List (κ × α)) :
    (insert key value entries).map Prod.fst =
      if key ∈ entries.map Prod.fst then entries.map Prod.fst
      else entries.map Prod.fst ++ [key] := by
  induction entries with
  | nil => simp [insert]
  | cons entry rest ih =>
      by_cases hkey : entry.1 = key
      · simp [insert, hkey]
      · by_cases hmem : key ∈ rest.map Prod.fst
        · simp [insert, hkey, ih, hmem]
        · simp [insert, hkey, ih, hmem, Ne.symm hkey]

theorem nodup_keys_insert (key : κ) (value : α) {entries : List (κ × α)}
    (hdistinct : (entries.map Prod.fst).Nodup) :
    ((insert key value entries).map Prod.fst).Nodup := by
  rw [keys_insert]
  split
  next => exact hdistinct
  next hmem =>
    rw [List.nodup_append]
    refine ⟨hdistinct, List.nodup_singleton key, ?_⟩
    intro other hother same hsame
    rw [List.mem_singleton] at hsame
    rintro rfl
    exact hmem (hsame ▸ hother)

/-! ## Tables filled entry by entry -/

theorem ofList_concat (entries : List (κ × α)) (key : κ) (value : α) :
    ofList (entries ++ [(key, value)]) = insert key value (ofList entries) :=
  List.foldl_append

theorem nodup_keys_ofList (entries : List (κ × α)) : ((ofList entries).map Prod.fst).Nodup := by
  induction entries using List.reverseRecOn with
  | nil => exact List.nodup_nil
  | append_singleton entries entry ih =>
      rw [ofList_concat]
      exact nodup_keys_insert entry.1 entry.2 ih

/-- Under a key stands the value of its last entry. -/
theorem get?_ofList (key : κ) (entries : List (κ × α)) :
    get? key (ofList entries) =
      ((entries.filter fun entry => entry.1 = key).getLast?).map Prod.snd := by
  induction entries using List.reverseRecOn with
  | nil => rfl
  | append_singleton entries entry ih =>
      obtain ⟨k, v⟩ := entry
      rw [ofList_concat, List.filter_append]
      by_cases hkey : k = key
      · subst hkey
        simp
      · rw [get?_insert_of_ne (Ne.symm hkey), ih]
        simp [hkey]

end Assoc
end WebApp
