import Mathlib.Tactic
import WebApp.Proofs.Routing.Matching

/-!
# Trees of well-formed paths

A tree that well-formed paths are added to, each leading to itself, holds just the paths that it
accepted, and no two of them conflict.
-/

namespace WebApp

/-- The marks of a path, with short names for its parameters. -/
def shapeOf (path : String) : List Mark :=
  match (Pattern.ofString path).normalize with
  | .ok (route, _) => route.marks
  | .error _ => []

/-- What a path leads to in a tree where each leads to itself. -/
def leafOf (path : String) : Leaf String :=
  match (Pattern.ofString path).normalize with
  | .ok (_, names) => ⟨path, names⟩
  | .error _ => ⟨path, []⟩

/-- Text, parameters and a catch-all, of which a tree can be made. -/
structure WellFormed (path : String) : Prop where
  ne_nil : shapeOf path ≠ []
  regular : Regular Pattern.letters false (shapeOf path)

/-- A path that is well-formed, or is refused before a tree is looked at. -/
def Admissible (path : String) : Prop :=
  WellFormed path ∨ ∃ e, (Pattern.ofString path).normalize = .error e

/-- Whether two paths conflict. -/
def Clash (p q : String) : Prop :=
  Conflicts (shapeOf p) (shapeOf q)

theorem Clash.symm {p q : String} (hclash : Clash p q) : Clash q p :=
  Conflicts.symm hclash

section Paths

variable {path : String}

theorem WellFormed.normalize_eq (hpath : WellFormed path) :
    ∃ route names, (Pattern.ofString path).normalize = .ok (route, names) ∧
      shapeOf path = route.marks ∧ leafOf path = ⟨path, names⟩ := by
  have hne := hpath.ne_nil
  unfold shapeOf leafOf at *
  split at hne
  next route names hroute => exact ⟨route, names, hroute, rfl, rfl⟩
  next => exact absurd rfl hne

theorem not_wellFormed_of_error {e : InsertError}
    (herror : (Pattern.ofString path).normalize = .error e) : ¬ WellFormed path := by
  intro hpath
  apply hpath.ne_nil
  rw [shapeOf, herror]

theorem WellFormed.clash_self (hpath : WellFormed path) : Clash path path :=
  hpath.regular.conflicts_self

end Paths

/-- The tree has grown from these paths. -/
structure Orderly (paths : List String) (n : Node String) : Prop where
  root : n.IsRoot
  holds_iff : ∀ marks l, n.Holds marks l ↔ ∃ path ∈ paths, marks = shapeOf path ∧ l = leafOf path
  wellFormed : ∀ path ∈ paths, WellFormed path
  apart : paths.Pairwise fun p q => ¬ Clash p q

namespace Orderly

variable {paths : List String} {n : Node String} {path : String}

theorem empty : Orderly [] .empty where
  root := Node.isRoot_empty
  holds_iff marks l := by
    simp only [List.not_mem_nil, false_and, exists_false, iff_false]
    intro hholds
    obtain ⟨below, -, hbelow⟩ := Node.holds_iff.mp hholds
    exact Node.not_holdsBelow_bare hbelow
  wellFormed := by simp
  apart := .nil

/-- A tree of paths accepts a path that is well-formed and conflicts with none of them. -/
theorem insert_eq_none_iff (horderly : Orderly paths n) (hpath : Admissible path) :
    (n.insert path path).1 = none ↔ WellFormed path ∧ ∀ other ∈ paths, ¬ Clash other path := by
  rcases hpath with hpath | ⟨e, herror⟩
  · obtain ⟨route, names, hroute, hshape, -⟩ := hpath.normalize_eq
    have haccepts := (horderly.root.insert path hroute (hshape ▸ hpath.regular)
      (hshape ▸ hpath.ne_nil)).2.1
    rw [← hshape] at haccepts
    refine haccepts.trans ⟨?_, ?_⟩
    · intro hnone
      refine ⟨hpath, ?_⟩
      intro other hother
      exact hnone _ _ ((horderly.holds_iff _ _).mpr ⟨other, hother, rfl, rfl⟩)
    · intro hnone marks l hholds
      obtain ⟨other, hother, rfl, -⟩ := (horderly.holds_iff marks l).mp hholds
      exact hnone.2 other hother
  · rw [Node.insert, herror]
    simp [not_wellFormed_of_error herror]

theorem insert_of_none (horderly : Orderly paths n) (hpath : Admissible path)
    (hnone : (n.insert path path).1 = none) : Orderly (paths ++ [path]) (n.insert path path).2 := by
  obtain ⟨hwell, hclash⟩ := (horderly.insert_eq_none_iff hpath).mp hnone
  obtain ⟨route, names, hroute, hshape, hleaf⟩ := hwell.normalize_eq
  obtain ⟨hroot, -, hadds⟩ := horderly.root.insert path hroute (hshape ▸ hwell.regular)
    (hshape ▸ hwell.ne_nil)
  refine ⟨hroot, ?_, ?_, ?_⟩
  · intro marks l
    rw [hadds, horderly.holds_iff, ← hshape, ← hleaf]
    simp [hnone, or_and_right, exists_or]
  · intro other hother
    rw [List.mem_append, List.mem_singleton] at hother
    rcases hother with hold | rfl
    · exact horderly.wellFormed other hold
    · exact hwell
  · rw [List.pairwise_append]
    refine ⟨horderly.apart, List.pairwise_singleton _ _, ?_⟩
    intro other hother new hnew
    rw [List.mem_singleton.mp hnew]
    exact hclash other hother

theorem insert_of_some (horderly : Orderly paths n) (hpath : Admissible path)
    (hsome : (n.insert path path).1 ≠ none) : Orderly paths (n.insert path path).2 := by
  rcases hpath with hwell | ⟨e, herror⟩
  · obtain ⟨route, names, hroute, hshape, hleaf⟩ := hwell.normalize_eq
    obtain ⟨hroot, -, hadds⟩ := horderly.root.insert path hroute (hshape ▸ hwell.regular)
      (hshape ▸ hwell.ne_nil)
    refine ⟨hroot, ?_, horderly.wellFormed, horderly.apart⟩
    intro marks l
    rw [hadds, horderly.holds_iff]
    simp [hsome]
  · rw [Node.insert, herror]
    exact horderly

theorem eq_of_clash (horderly : Orderly paths n) {p q : String} (hp : p ∈ paths) (hq : q ∈ paths)
    (hclash : Clash p q) : p = q := by
  have hpairwise : paths.Pairwise fun p q => Clash p q → p = q :=
    horderly.apart.imp fun hnot hclash => absurd hclash hnot
  have hsymm : Std.Symm fun p q => Clash p q → p = q :=
    ⟨fun p q himp hclash => (himp hclash.symm).symm⟩
  exact hpairwise.forall_of_forall (fun _ _ _ => rfl) hp hq hclash

/-- A path that is selected fits a path of the tree. -/
theorem fits_of_lookup (horderly : Orderly paths n) {request : String}
    (hlookup : (n.lookup request).isSome = true) :
    ∃ path ∈ paths, Fits (shapeOf path) (Utf8.encode request) := by
  rw [Node.lookup, Option.isSome_map] at hlookup
  obtain ⟨found, hfound⟩ := Option.isSome_iff_exists.mp hlookup
  obtain ⟨marks, l, hholds, hfits, -⟩ :=
    Node.search_suits n horderly.root.grown horderly.root.kind _ _ hfound
  obtain ⟨path, hpath, rfl, -⟩ := (horderly.holds_iff marks l).mp hholds
  exact ⟨path, hpath, hfits⟩

/-- Where no path hides another, one is selected for all that fit one. -/
theorem lookup_of_fits (horderly : Orderly paths n)
    (hhides : ∀ p ∈ paths, ∀ q ∈ paths, ¬ Hides (shapeOf p) (shapeOf q)) {request path : String}
    (hpath : path ∈ paths) (hfits : Fits (shapeOf path) (Utf8.encode request)) :
    (n.lookup request).isSome = true := by
  rw [Node.lookup, Option.isSome_map]
  have hholds : n.Holds (shapeOf path) (leafOf path) :=
    (horderly.holds_iff _ _).mpr ⟨path, hpath, rfl, rfl⟩
  have hunhidden : Node.Unhidden n.Holds := by
    intro marks l others l' hmarks hothers
    obtain ⟨p, hp, rfl, -⟩ := (horderly.holds_iff marks l).mp hmarks
    obtain ⟨q, hq, rfl, -⟩ := (horderly.holds_iff others l').mp hothers
    exact hhides p hp q hq
  exact Node.search_isSome n horderly.root.grown horderly.root.kind
    ⟨⟨_, _, hholds, hfits⟩, hunhidden⟩ []

end Orderly
end WebApp
