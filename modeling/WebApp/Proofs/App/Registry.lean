import Mathlib.Tactic
import WebApp.Proofs.App.Tables
import WebApp.Proofs.Routing.Orderly

/-!
# What a registry accepts

As long as the paths are well-formed, or refused before a tree is looked at, a route is accepted
just when no route of its method conflicts with it, save an implicit one of the same path, whose
place it takes.
-/

namespace WebApp
namespace App

universe u

variable {m : Type → Type u}

/-- The paths of the routes of a method. -/
def paths (app : App m) (method : Method) : List String :=
  (app.keys.filter fun key => key.1 = method).map Prod.snd

theorem mem_paths {app : App m} {method : Method} {path : String} :
    path ∈ app.paths method ↔ ∃ entry ∈ app.routes, entry.method = method ∧ entry.path = path := by
  simp [paths, keys, eq_comm]

/-- The tables agree, and the trees have grown from well-formed paths. -/
def Tidy (app : App m) : Prop :=
  ∃ patterns, app.Tabulated patterns ∧ ∀ method, Orderly (app.paths method) (patterns method)

/-- A route that can be added: one that is well-formed and conflicts with no route of its method but
an implicit one that it takes the place of. -/
def Welcomes (app : App m) (entry : RouteEntry m) : Prop :=
  WellFormed entry.path ∧ ∀ other ∈ app.routes, other.method = entry.method →
    Clash other.path entry.path →
    other.path = entry.path ∧ other.isImplicit = true ∧ entry.isImplicit = false

theorem tidy_new [Monad m] [Reports m] (config : Config) : (App.new config : App m).Tidy :=
  ⟨_, tabulated_new config, fun _ => .empty⟩

section Insert

variable {app : App m} {entry other : RouteEntry m}

theorem Tidy.eq_of_key (htidy : app.Tidy) (hentry : entry ∈ app.routes)
    (hother : other ∈ app.routes) (hmethod : entry.method = other.method)
    (hpath : entry.path = other.path) : entry = other := by
  obtain ⟨patterns, htables, -⟩ := htidy
  exact List.inj_on_of_nodup_map htables.distinct hentry hother (by simp [hmethod, hpath])

theorem Tidy.eq_of_clash (htidy : app.Tidy) (hentry : entry ∈ app.routes)
    (hother : other ∈ app.routes) (hmethod : entry.method = other.method)
    (hclash : Clash entry.path other.path) : entry.path = other.path := by
  obtain ⟨patterns, -, horderly⟩ := htidy
  exact (horderly other.method).eq_of_clash (mem_paths.mpr ⟨entry, hentry, hmethod, rfl⟩)
    (mem_paths.mpr ⟨other, hother, rfl, rfl⟩) hclash

theorem Tidy.wellFormed (htidy : app.Tidy) (hentry : entry ∈ app.routes) :
    WellFormed entry.path := by
  obtain ⟨patterns, -, horderly⟩ := htidy
  exact (horderly entry.method).wellFormed _ (mem_paths.mpr ⟨entry, hentry, rfl, rfl⟩)

theorem Tidy.options_of_isImplicit (htidy : app.Tidy) (hentry : entry ∈ app.routes)
    (himplicit : entry.isImplicit = true) : entry.method = .options := by
  obtain ⟨patterns, htables, -⟩ := htidy
  exact htables.implicit entry hentry himplicit

theorem Tidy.exists_of_place (htidy : app.Tidy) {method : Method} {path : String} {place : Nat}
    (hplace : app.place? method path = some place) :
    ∃ other, app.routes[place]? = some other ∧ other ∈ app.routes ∧ other.method = method ∧
      other.path = path := by
  obtain ⟨patterns, htables, -⟩ := htidy
  obtain ⟨other, hother, hmethod, hpath⟩ := htables.exists_entry hplace
  exact ⟨other, hother, List.mem_of_getElem? hother, hmethod, hpath⟩

theorem Tidy.not_mem_of_place (htidy : app.Tidy) {method : Method} {path : String}
    (hplace : app.place? method path = none) (hother : other ∈ app.routes)
    (hmethod : other.method = method) : other.path ≠ path := by
  obtain ⟨patterns, htables, -⟩ := htidy
  intro hpath
  apply htables.notMem_keys hplace
  rw [← hmethod, ← hpath]
  exact List.mem_map.mpr ⟨other, hother, rfl⟩

theorem insert_routes_of_some (hsome : (app.insert entry).1 ≠ none) :
    (app.insert entry).2.routes = app.routes := by
  unfold App.insert at hsome ⊢
  split
  next place hplace =>
    rw [hplace] at hsome
    split
    next => rfl
    next htaken => simp [htaken] at hsome
  next hplace =>
    rw [hplace] at hsome
    dsimp only at hsome ⊢
    split
    next => rfl
    next heq =>
      rw [heq] at hsome
      exact absurd rfl hsome

/-- A route is accepted just when it is welcome. -/
theorem Tidy.insert_eq_none_iff (htidy : app.Tidy) (hpath : Admissible entry.path) :
    (app.insert entry).1 = none ↔ app.Welcomes entry := by
  cases hplace : app.place? entry.method entry.path with
  | some place =>
      obtain ⟨own, hget, hown, hownMethod, hownPath⟩ := htidy.exists_of_place hplace
      have hwell : WellFormed entry.path := hownPath ▸ htidy.wellFormed hown
      have honly : app.Welcomes entry ↔ own.isImplicit = true ∧ entry.isImplicit = false := by
        constructor
        · intro hwelcome
          exact (hwelcome.2 own hown hownMethod (hownPath ▸ hwell.clash_self)).2
        · intro himplicit
          refine ⟨hwell, ?_⟩
          intro other hother hmethod hclash
          have hsame : other.path = own.path :=
            htidy.eq_of_clash hother hown (hmethod.trans hownMethod.symm) (hownPath ▸ hclash)
          have hother : other = own :=
            htidy.eq_of_key hother hown (hmethod.trans hownMethod.symm) hsame
          rw [hother]
          exact ⟨hownPath, himplicit⟩
      rw [honly, App.insert, hplace]
      dsimp only
      rw [hget, Option.any_some]
      cases entry.isImplicit <;> cases own.isImplicit <;> simp
  | none =>
      obtain ⟨patterns, htables, horderly⟩ := htidy
      have hfst : (app.insert entry).1 = none ↔
          ((patterns entry.method).insert entry.path entry.path).1 = none := by
        rw [← htables.insert_fst_eq hplace app.routes.length, App.insert, hplace]
        dsimp only
        split
        next heq => simp [heq]
        next heq => simp [heq]
      rw [hfst, (horderly entry.method).insert_eq_none_iff hpath, Welcomes]
      refine and_congr_right fun _ => ⟨?_, ?_⟩
      · intro hnone other hother hmethod hclash
        exact absurd hclash (hnone _ (mem_paths.mpr ⟨other, hother, hmethod, rfl⟩))
      · intro hnone path hmem hclash
        obtain ⟨other, hother, hmethod, rfl⟩ := mem_paths.mp hmem
        have hsame := (hnone other hother hmethod hclash).1
        exact Tidy.not_mem_of_place ⟨patterns, htables, horderly⟩ hplace hother hmethod hsame

/-- A route that takes the place of one with its key. -/
theorem Tabulated.mem_set_iff {patterns : Method → Node String} {place : Nat}
    (htables : app.Tabulated patterns)
    (hplace : app.place? entry.method entry.path = some place) :
    other ∈ app.routes.set place entry ↔ other = entry ∨
      other ∈ app.routes ∧ (other.method, other.path) ≠ (entry.method, entry.path) := by
  obtain ⟨own, hget, hmethod, hpath⟩ := htables.exists_entry hplace
  have hnodup := htables.distinct
  rw [← htables.keys_set hplace] at hnodup
  have hentry : entry ∈ app.routes.set place entry :=
    List.mem_set (List.getElem?_eq_some_iff.mp hget).1 entry
  constructor
  · intro hother
    by_cases hkey : (other.method, other.path) = (entry.method, entry.path)
    · exact .inl (List.inj_on_of_nodup_map hnodup hother hentry hkey)
    · refine .inr ⟨(List.mem_or_eq_of_mem_set hother).resolve_right ?_, hkey⟩
      rintro rfl
      exact hkey rfl
  · rintro (rfl | ⟨hother, hkey⟩)
    · exact hentry
    · obtain ⟨spot, hspot⟩ := List.mem_iff_getElem?.mp hother
      have hne : place ≠ spot := by
        rintro rfl
        rw [hget, Option.some.injEq] at hspot
        rw [← hspot, hmethod, hpath] at hkey
        exact hkey rfl
      rw [List.mem_iff_getElem?]
      exact ⟨spot, by rw [List.getElem?_set_ne hne, hspot]⟩

/-- What a registry holds once it has accepted a route. -/
theorem Tidy.mem_insert (htidy : app.Tidy) (hnone : (app.insert entry).1 = none) :
    other ∈ (app.insert entry).2.routes ↔ other = entry ∨
      other ∈ app.routes ∧ (other.method, other.path) ≠ (entry.method, entry.path) := by
  unfold App.insert at hnone ⊢
  split
  next place hplace =>
    rw [hplace] at hnone
    obtain ⟨patterns, htables, -⟩ := htidy
    split
    next hrefused => simp [hrefused] at hnone
    next => exact htables.mem_set_iff hplace
  next hplace =>
    rw [hplace] at hnone
    dsimp only at hnone ⊢
    split
    next heq => simp [heq] at hnone
    next heq =>
      have hfresh : other ∈ app.routes →
          (other.method, other.path) ≠ (entry.method, entry.path) := by
        intro hother hsame
        rw [Prod.mk.injEq] at hsame
        exact htidy.not_mem_of_place hplace hother hsame.1 hsame.2
      rw [List.mem_append, List.mem_singleton]
      constructor
      · rintro (hold | rfl)
        · exact .inr ⟨hold, hfresh hold⟩
        · exact .inl rfl
      · rintro (rfl | ⟨hold, -⟩)
        · exact .inr rfl
        · exact .inl hold

theorem paths_append (table : RouteTable) (index : List ((Method × String) × Nat))
    (method : Method) :
    ({ app with table := table, routes := app.routes ++ [entry], index := index } : App m).paths
      method = app.paths method ++ if entry.method = method then [entry.path] else [] := by
  simp only [paths, keys, List.map_append, List.filter_append, List.map_cons, List.map_nil,
    List.filter_singleton]
  split <;> simp_all

/-- Registration keeps a registry tidy. -/
theorem Tidy.insert (htidy : app.Tidy) (hpath : Admissible entry.path)
    (himplicit : entry.isImplicit = true → entry.method = .options) :
    (app.insert entry).2.Tidy := by
  obtain ⟨patterns, htables, horderly⟩ := htidy
  unfold App.insert
  split
  next place hplace =>
    split
    next => exact ⟨patterns, htables, horderly⟩
    next htaken =>
      have hown : entry.isImplicit = false := by
        rw [Bool.or_eq_true, not_or] at htaken
        exact Bool.eq_false_iff.mpr htaken.1
      refine ⟨patterns, htables.takeOver hplace hown, ?_⟩
      intro method
      rw [paths, htables.keys_set hplace]
      exact horderly method
  next hplace =>
    dsimp only
    split
    next heq =>
      refine ⟨_, htables.refuse hplace heq, ?_⟩
      have hsome : ((patterns entry.method).insert entry.path entry.path).1 ≠ none := by
        rw [← htables.insert_fst_eq hplace app.routes.length, heq]
        simp
      intro method
      by_cases hmethod : method = entry.method
      · subst hmethod
        rw [Function.update_self]
        exact (horderly _).insert_of_some hpath hsome
      · rw [Function.update_of_ne hmethod]
        exact horderly method
    next heq =>
      refine ⟨_, htables.accept hplace himplicit heq, ?_⟩
      have hnone : ((patterns entry.method).insert entry.path entry.path).1 = none := by
        rw [← htables.insert_fst_eq hplace app.routes.length, heq]
      intro method
      rw [paths_append]
      by_cases hmethod : method = entry.method
      · subst hmethod
        rw [Function.update_self, if_pos rfl]
        exact (horderly _).insert_of_none hpath hnone
      · rw [Function.update_of_ne hmethod, if_neg (Ne.symm hmethod), List.append_nil]
        exact horderly method

end Insert

end App
end WebApp
