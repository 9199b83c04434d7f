import Mathlib.Tactic
import WebApp.Dependency.Resolver

/-!
# Dependency graphs

Dependencies are made one after another, each from what is there already, and each with an
identity that none had before; only a clone shares the identity of the original.  So equal
identities mean equal dependencies, and a dependency never needs itself.
-/

namespace WebApp
namespace Dependency

universe u

variable {m : Type → Type u}

/-- Dependencies that have been made while so many identities were given out. -/
inductive Built : Nat → List (Dependency m) → Prop where
  | none : Built 0 []
  | make {taken fresh : Nat} {ds : List (Dependency m)} (name : String) (provider : Provider m) :
      Built taken ds → taken ≤ fresh → Built (fresh + 1) (.node ⟨fresh⟩ name provider [] :: ds)
  | clone {taken : Nat} {ds : List (Dependency m)} {d : Dependency m} :
      Built taken ds → d ∈ ds → Built taken (d :: ds)
  | param {taken fresh : Nat} {ds : List (Dependency m)} {d : Dependency m}
      {reference : Reference (Dependency m)} :
      Built taken ds → d ∈ ds → reference.target ∈ ds → taken ≤ fresh →
      Built (fresh + 1) (d.param ⟨fresh⟩ reference :: ds)

/-- Whatever holds of a dependency when it holds of its parameters holds of all. -/
theorem induction_params {P : Dependency m → Prop}
    (hstep : ∀ d : Dependency m, (∀ reference ∈ d.params, P reference.target) → P d) :
    ∀ d, P d
  | .node id name provider params => by
    apply hstep
    intro reference hmem
    have hsize : sizeOf reference.target < sizeOf params := by
      have hlt : sizeOf reference < sizeOf params := List.sizeOf_lt_of_mem hmem
      cases reference
      simp only [Reference.mk.sizeOf_spec] at hlt
      simp only
      omega
    exact induction_params hstep reference.target
termination_by d => sizeOf d
decreasing_by simp_wf; omega

/-- The graph of some dependencies has no gaps and no cycles, and knows each identity once. -/
structure Sound (taken : Nat) (ds : List (Dependency m)) : Prop where
  bounded : ∀ d ∈ ds, d.id.number < taken
  closed : ∀ d ∈ ds, ∀ reference ∈ d.params, reference.target ∈ ds
  descending : ∀ d ∈ ds, ∀ reference ∈ d.params, reference.target.id.number < d.id.number
  unique : ∀ d ∈ ds, ∀ other ∈ ds, d.id = other.id → d = other

/-- A dependency with a fresh identity, and parameters that were there before, keeps a graph
sound. -/
theorem Sound.add {taken fresh : Nat} {ds : List (Dependency m)} {d : Dependency m}
    (sound : Sound taken ds) (hid : d.id = ⟨fresh⟩) (hfresh : taken ≤ fresh)
    (hparams : ∀ reference ∈ d.params, reference.target ∈ ds) : Sound (fresh + 1) (d :: ds) where
  bounded other hother := by
    rcases List.mem_cons.mp hother with rfl | hother
    · rw [hid]
      exact Nat.lt_succ_self fresh
    · have := sound.bounded other hother
      omega
  closed other hother reference hreference := by
    rcases List.mem_cons.mp hother with rfl | hother
    · exact List.mem_cons_of_mem _ (hparams reference hreference)
    · exact List.mem_cons_of_mem _ (sound.closed other hother reference hreference)
  descending other hother reference hreference := by
    rcases List.mem_cons.mp hother with rfl | hother
    · have := sound.bounded _ (hparams reference hreference)
      rw [hid]
      simp only
      omega
    · exact sound.descending other hother reference hreference
  unique first hfirst second hsecond hsame := by
    have hnew : ∀ other ∈ ds, other.id ≠ d.id := by
      intro other hother hother'
      have := sound.bounded other hother
      rw [hother', hid] at this
      simp only at this
      omega
    rw [List.mem_cons] at hfirst hsecond
    rcases hfirst with rfl | hfirst <;> rcases hsecond with rfl | hsecond
    · rfl
    · exact absurd hsame.symm (hnew second hsecond)
    · exact absurd hsame (hnew first hfirst)
    · exact sound.unique first hfirst second hsecond hsame

theorem Built.sound {taken : Nat} {ds : List (Dependency m)} (built : Built taken ds) :
    Sound taken ds := by
  induction built with
  | none => exact ⟨by simp, by simp, by simp, by simp⟩
  | make name provider _ hfresh ih => exact ih.add rfl hfresh (by simp [params])
  | @clone taken ds d _ hmem ih =>
      have hsame : ∀ other, other ∈ d :: ds ↔ other ∈ ds := by
        intro other
        rw [List.mem_cons]
        constructor
        · rintro (rfl | hother)
          · exact hmem
          · exact hother
        · exact .inr
      constructor <;> simp only [hsame]
      · exact ih.bounded
      · exact ih.closed
      · exact ih.descending
      · exact ih.unique
  | param _ hmem htarget hfresh ih =>
      refine ih.add rfl hfresh fun reference hreference => ?_
      rcases List.mem_append.mp hreference with hreference | hreference
      · exact ih.closed _ hmem reference hreference
      · rwa [List.mem_singleton.mp hreference]

/-! ## What a dependency needs -/

/-- A dependency is needed for another: it is the other, or needed for a parameter of it. -/
inductive Needs : Dependency m → Dependency m → Prop where
  | self (d : Dependency m) : Needs d d
  | param {d needed : Dependency m} {reference : Reference (Dependency m)} :
      reference ∈ d.params → Needs reference.target needed → Needs d needed

theorem Sound.needs {taken : Nat} {ds : List (Dependency m)} (sound : Sound taken ds)
    {d needed : Dependency m} (hd : d ∈ ds) (hneeds : Needs d needed) : needed ∈ ds := by
  induction hneeds with
  | self => exact hd
  | param hreference _ ih => exact ih (sound.closed _ hd _ hreference)

/-- What a dependency needs was made no later. -/
theorem Sound.id_le_of_needs {taken : Nat} {ds : List (Dependency m)} (sound : Sound taken ds)
    {d needed : Dependency m} (hd : d ∈ ds) (hneeds : Needs d needed) :
    needed.id.number ≤ d.id.number := by
  induction hneeds with
  | self => exact le_rfl
  | param hmem _ ih =>
      have hbelow := sound.descending _ hd _ hmem
      exact (ih (sound.closed _ hd _ hmem)).trans hbelow.le

theorem isSome_findAmong? {wanted : DependencyId} {references : List (Reference (Dependency m))}
    {reference : Reference (Dependency m)} (hmem : reference ∈ references)
    (hfound : (reference.target.find? wanted).isSome) : (findAmong? wanted references).isSome := by
  induction references with
  | nil => simp at hmem
  | cons first rest ih =>
      rw [findAmong?, Option.isSome_or]
      rcases List.mem_cons.mp hmem with rfl | hmem
      · simp [hfound]
      · simp [ih hmem]

theorem isSome_find?_of_needs {d needed : Dependency m} (hneeds : Needs d needed) :
    (d.find? needed.id).isSome := by
  induction hneeds with
  | self d =>
      cases d
      simp [find?, id]
  | param hreference _ ih =>
      rename_i d needed reference _
      cases d with
      | node did name provider params =>
          rw [find?]
          split
          · rfl
          · exact isSome_findAmong? hreference ih

theorem exists_of_findAmong? {wanted : DependencyId} {found : Dependency m}
    {references : List (Reference (Dependency m))}
    (hfound : findAmong? wanted references = some found) :
    ∃ reference ∈ references, reference.target.find? wanted = some found := by
  induction references with
  | nil => simp [findAmong?] at hfound
  | cons first rest ih =>
      rw [findAmong?, Option.or_eq_some_iff] at hfound
      rcases hfound with hfirst | ⟨-, hrest⟩
      · exact ⟨first, by simp, hfirst⟩
      · obtain ⟨reference, hmem, hfound⟩ := ih hrest
        exact ⟨reference, by simp [hmem], hfound⟩

theorem needs_of_find? {wanted : DependencyId} {d found : Dependency m}
    (hfound : d.find? wanted = some found) : Needs d found ∧ found.id = wanted := by
  induction d using induction_params with
  | hstep d ih =>
      cases d with
      | node did name provider params =>
          rw [find?] at hfound
          split at hfound
          next hid =>
            simp only [Option.some.injEq] at hfound
            rw [← hfound]
            exact ⟨.self _, hid⟩
          next =>
            obtain ⟨reference, hmem, hfound⟩ := exists_of_findAmong? hfound
            obtain ⟨hneeds, hid⟩ := ih reference hmem hfound
            exact ⟨.param hmem hneeds, hid⟩

/-- What a request holds is released by the dependency that has provided it. -/
theorem Sound.teardownAmong_eq {m : Type → Type u} [Monad m] {taken : Nat}
    {ds : List (Dependency m)} (sound : Sound taken ds)
    {references : List (Reference (Dependency m))}
    (hreferences : ∀ reference ∈ references, reference.target ∈ ds)
    {reference : Reference (Dependency m)} (hmem : reference ∈ references) {d : Dependency m}
    (hneeds : Needs reference.target d) {release : Datum → Teardown m}
    (hrelease : d.provider.release = some release) (value : Datum) :
    teardownAmong references ⟨d.id, value⟩ = release value := by
  obtain ⟨found, hfound⟩ := Option.isSome_iff_exists.mp
    (isSome_findAmong? hmem (isSome_find?_of_needs hneeds))
  have hsame : found = d := by
    obtain ⟨other, hother, hfind⟩ := exists_of_findAmong? hfound
    obtain ⟨hneeded, hid⟩ := needs_of_find? hfind
    exact sound.unique found (sound.needs (hreferences other hother) hneeded) d
      (sound.needs (hreferences reference hmem) hneeds) hid
  simp [teardownAmong, hfound, hsame, hrelease]

end Dependency
end WebApp
