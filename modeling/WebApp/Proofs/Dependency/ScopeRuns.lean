import Mathlib.Tactic
import WebApp.Dependency.Scope
import WebApp.Proofs.Task.Runs

/-!
# Runs of a scope

Closing a scope releases what it holds one after another and waits for each.  Only a release
that panics before its own task has begun stops this; what is left is then handed to a task
that nobody waits for.
-/

namespace WebApp

universe v

namespace Scope

variable {σ : Type}

/-- A teardown that was begun, and how it went. -/
structure Release (σ : Type) : Type 1 where
  name : String
  teardown : Teardown (Routine σ)
  steps : List (Step σ)
  outcome : Outcome Unit
  runs : (runTeardown name teardown).Runs steps outcome

/-- A release that ends has waited for the teardown's own task. -/
theorem Release.exists_run_of_finished (release : Release σ)
    (hfinished : release.outcome = .finished ()) :
    ∃ first inner last ended, release.steps = first ++ inner ++ last ∧
      release.teardown.run.Runs inner ended := by
  have hruns := release.runs
  rw [hfinished, runTeardown] at hruns
  obtain ⟨_, reported, rest, hsteps, -, hrest⟩ := Routine.follow_of_finished hruns
  obtain ⟨_, prepared, more, rfl, -, hmore⟩ := Routine.follow_of_finished hrest
  obtain ⟨ended, inner, last, rfl, hinner, -⟩ := (Routine.runs_await_bind _ _ _ _).mp hmore
  exact ⟨reported ++ prepared, inner, last, ended, by simp [hsteps], hinner⟩

/-- The task that was begun last of all. -/
def handed? (steps : List (Step σ)) : Option (Routine σ Unit) :=
  match steps.getLast? with
  | some (.spawn task) => some task
  | _ => none

/-- The steps of the heir up to its end, if there is one. -/
def Inherits : Option (Routine σ Unit) → List (Step σ) → Prop
  | none, steps => steps = []
  | some task, steps => ∃ ended, task.Runs steps ended

section Runs

variable {τ : Type v} (teardown : τ → Teardown (Routine σ))

/-- A scope that is given up begins at most one task, which has all that is left to do. -/
theorem runs_dropEntries {entries : List (String × τ)} {steps : List (Step σ)}
    {outcome : Outcome Unit} (hruns : (dropEntries teardown entries).Runs steps outcome) :
    outcome = .finished () ∧
      ((entries = [] ∧ steps = []) ∨
        entries ≠ [] ∧ ∃ now before after,
          steps = [.act now before after, .spawn (runEach teardown entries)]) := by
  cases entries with
  | nil =>
      obtain ⟨rfl, rfl⟩ := hruns
      exact ⟨rfl, .inl ⟨rfl, rfl⟩⟩
  | cons entry rest =>
      have hcons : dropEntries teardown (entry :: rest) =
          (report ⟨.warn, "teardown scope dropped before close",
            [("pending", toString (entry :: rest).length)]⟩ >>= fun _ =>
              Tasks.spawn (runEach teardown (entry :: rest)) : Routine σ Unit) := rfl
      rw [hcons, Routine.runs_report_bind] at hruns
      obtain ⟨now, before, _, rfl, ⟨_, _, _, rfl, rfl, rfl, rfl⟩⟩ := hruns
      exact ⟨rfl, .inr ⟨by simp, now, before, _, rfl⟩⟩

/-- What closing a scope comes to: everything is released, or a release panics and the rest is
dropped. -/
inductive Closes : List (String × τ) → List (Release σ) → List (Step σ) → Outcome Unit → Prop where
  | nil : Closes [] [] [] (.finished ())
  | cons {entries : List (String × τ)} {releases : List (Release σ)} {handed : List (Step σ)}
      {outcome : Outcome Unit} (name : String) (entry : τ) (release : Release σ) :
      release.name = name → release.teardown = teardown entry →
      release.outcome = .finished () → Closes entries releases handed outcome →
      Closes ((name, entry) :: entries) (release :: releases) handed outcome
  | panic {entries : List (String × τ)} {handed : List (Step σ)} {text : String} (name : String)
      (entry : τ) (release : Release σ) :
      release.name = name → release.teardown = teardown entry →
      release.outcome = .panicked text →
      (dropEntries teardown entries).Runs handed (.finished ()) →
      Closes ((name, entry) :: entries) [release] handed (.panicked text)

theorem closeEntries_closes (entries : List (String × τ)) {steps : List (Step σ)}
    {outcome : Outcome Unit} (hruns : (closeEntries teardown entries).Runs steps outcome) :
    ∃ releases handed, steps = releases.flatMap Release.steps ++ handed ∧
      Closes teardown entries releases handed outcome := by
  induction entries generalizing steps with
  | nil =>
      obtain ⟨rfl, rfl⟩ := hruns
      exact ⟨[], [], rfl, .nil⟩
  | cons entry rest ih =>
      obtain ⟨name, entry⟩ := entry
      rw [closeEntries, Routine.runs_guarded_bind] at hruns
      obtain ⟨ended, first, last, rfl, hrelease, hlast⟩ := hruns
      let release : Release σ := ⟨name, teardown entry, first, ended, hrelease⟩
      cases ended with
      | finished value =>
          obtain ⟨releases, handed, rfl, hcloses⟩ := ih hlast
          exact ⟨release :: releases, handed, by simp [release],
            .cons name entry release rfl rfl rfl hcloses⟩
      | panicked text =>
          dsimp only at hlast
          rw [Routine.runs_bind] at hlast
          rcases hlast with ⟨_, hpanic, -⟩ | ⟨_, handed, nothing, rfl, hdrop, rfl, rfl⟩
          · exact absurd (runs_dropEntries teardown hpanic).1 (by simp)
          · exact ⟨[release], handed, by simp [release],
              .panic name entry release rfl rfl rfl hdrop⟩

/-- All entries have been released, in order, or one has panicked and not all are. -/
theorem Closes.released_iff {entries : List (String × τ)} {releases : List (Release σ)}
    {handed : List (Step σ)} {outcome : Outcome Unit}
    (hcloses : Closes teardown entries releases handed outcome) :
    (releases.map (fun release => (release.name, release.teardown)) =
        entries.map (fun entry => (entry.1, teardown entry.2)) ∧
      (∀ release ∈ releases, release.outcome = .finished ()) ∧ handed = []) ↔
    ∀ release ∈ releases, release.outcome = .finished () := by
  constructor
  · exact fun h => h.2.1
  · intro hfinished
    induction hcloses with
    | nil => simp
    | cons name entry release hname hteardown _ hcloses ih =>
        obtain ⟨hsame, hall, hhanded⟩ := ih fun other hother => hfinished other (by simp [hother])
        exact ⟨by simp [hname, hteardown, hsame], hfinished, hhanded⟩
    | panic name entry release _ _ hpanicked _ =>
        have := hfinished release (by simp)
        rw [hpanicked] at this
        exact absurd this (by simp)

/-- Entries are released one after another, up to one whose release panics. -/
inductive Releases : List (String × τ) → List (Release σ) → Outcome Unit → Prop where
  | nil : Releases [] [] (.finished ())
  | cons {entries : List (String × τ)} {releases : List (Release σ)} {outcome : Outcome Unit}
      (name : String) (entry : τ) (release : Release σ) :
      release.name = name → release.teardown = teardown entry →
      release.outcome = .finished () → Releases entries releases outcome →
      Releases ((name, entry) :: entries) (release :: releases) outcome
  | panic {entries : List (String × τ)} {text : String} (name : String) (entry : τ)
      (release : Release σ) :
      release.name = name → release.teardown = teardown entry →
      release.outcome = .panicked text →
      Releases ((name, entry) :: entries) [release] (.panicked text)

theorem runEach_releases (entries : List (String × τ)) {steps : List (Step σ)}
    {outcome : Outcome Unit} (hruns : (runEach teardown entries).Runs steps outcome) :
    ∃ releases, steps = releases.flatMap Release.steps ∧
      Releases teardown entries releases outcome := by
  induction entries generalizing steps with
  | nil =>
      obtain ⟨rfl, rfl⟩ := hruns
      exact ⟨[], rfl, .nil⟩
  | cons entry rest ih =>
      obtain ⟨name, entry⟩ := entry
      rw [runEach, Routine.runs_bind] at hruns
      rcases hruns with ⟨text, hpanic, rfl⟩ | ⟨_, first, last, rfl, hrelease, hlast⟩
      · exact ⟨[⟨name, teardown entry, steps, .panicked text, hpanic⟩], by simp,
          .panic name entry _ rfl rfl rfl⟩
      · obtain ⟨releases, rfl, hreleases⟩ := ih hlast
        exact ⟨⟨name, teardown entry, first, .finished (), hrelease⟩ :: releases, by simp,
          .cons name entry _ rfl rfl rfl hreleases⟩

/-- The releases are those of the first entries. -/
theorem Releases.prefix_entries {entries : List (String × τ)} {releases : List (Release σ)}
    {outcome : Outcome Unit} (hreleases : Releases teardown entries releases outcome) :
    releases.map (fun release => (release.name, release.teardown)) <+:
      entries.map fun entry => (entry.1, teardown entry.2) := by
  induction hreleases with
  | nil => exact List.prefix_refl _
  | cons name entry release hname hteardown _ _ ih =>
      simp only [List.map_cons, hname, hteardown]
      exact (List.prefix_cons_inj _).mpr ih
  | panic name entry release hname hteardown =>
      simp only [List.map_cons, List.map_nil, hname, hteardown]
      exact (List.prefix_cons_inj _).mpr List.nil_prefix

/-- What closing a scope has not released is dropped. -/
theorem Closes.exists_dropped {entries : List (String × τ)} {releases : List (Release σ)}
    {handed : List (Step σ)} {outcome : Outcome Unit}
    (hcloses : Closes teardown entries releases handed outcome) :
    ∃ rest, entries.map (fun entry => (entry.1, teardown entry.2)) =
        releases.map (fun release => (release.name, release.teardown)) ++
          rest.map (fun entry => (entry.1, teardown entry.2)) ∧
      (dropEntries teardown rest).Runs handed (.finished ()) := by
  induction hcloses with
  | nil => exact ⟨[], rfl, rfl, rfl⟩
  | cons name entry release hname hteardown _ _ ih =>
      obtain ⟨rest, hentries, hdrop⟩ := ih
      exact ⟨rest, by simp [hname, hteardown, hentries], hdrop⟩
  | @panic entries _ _ name entry release hname hteardown _ hdrop =>
      exact ⟨entries, by simp [hname, hteardown], hdrop⟩

/-- The heir of a scope releases what was dropped. -/
theorem releases_of_inherits {entries : List (String × τ)} {handed later : List (Step σ)}
    {outcome : Outcome Unit} (hdrop : (dropEntries teardown entries).Runs handed outcome)
    (hinherits : Inherits (handed? handed) later) :
    ∃ inherited ended, later = inherited.flatMap Release.steps ∧
      Releases teardown entries inherited ended := by
  rcases (runs_dropEntries teardown hdrop).2 with ⟨rfl, rfl⟩ | ⟨-, _, _, _, rfl⟩
  · have hnone : later = [] := hinherits
    exact ⟨[], .finished (), hnone, .nil⟩
  · obtain ⟨ended, hruns⟩ := hinherits
    obtain ⟨inherited, hlater, hreleases⟩ := runEach_releases teardown entries hruns
    exact ⟨inherited, ended, hlater, hreleases⟩

end Runs

end Scope
end WebApp
