import Mathlib.Tactic
import WebApp.Proofs.Task.Runs

/-!
# What a run is given

A routine has nothing to choose.  It reads the clock and the journal, and is told how its queues
stand; two of its runs that are given the same do the same and end alike.  A routine that takes
from the journal no more than a view of it shows is decided by that view.  The reports are what
such a view may leave out.
-/

namespace WebApp

variable {σ τ α β : Type}

/-- Two steps are given the same: the same time, journals that look the same, the same answers. -/
inductive Step.Alike (view : Journal σ → τ) : Step σ → Step σ → Prop where
  | act {now : Nat} {before before' after after' : Journal σ} :
      view before = view before' → Alike view (.act now before after) (.act now before' after')
  | sleep (duration duration' : Nat) : Alike view (.sleep duration) (.sleep duration')
  | spawn (task task' : Routine σ Unit) : Alike view (.spawn task) (.spawn task')
  | openQueue (queue : Queue) : Alike view (.openQueue queue) (.openQueue queue)
  | enqueue {queue queue' : Queue} {work work' : Routine σ (Except Error Unit)} (accepted : Bool) :
      Alike view (.enqueue queue work accepted) (.enqueue queue' work' accepted)
  | queued {queue queue' : Queue} (count : Nat) :
      Alike view (.queued queue count) (.queued queue' count)
  | release {queue queue' : Queue} (any : Bool) :
      Alike view (.release queue any) (.release queue' any)

/-- The same things were given at every step. -/
def AllAlike (view : Journal σ → τ) : List (Step σ) → List (Step σ) → Prop :=
  List.Forall₂ (Step.Alike view)

theorem Step.Alike.refl (view : Journal σ → τ) (step : Step σ) : Step.Alike view step step := by
  cases step <;> constructor
  rfl

theorem AllAlike.refl (view : Journal σ → τ) (steps : List (Step σ)) : AllAlike view steps steps :=
  List.forall₂_same.mpr fun step _ => .refl view step

namespace Routine

/-- The routine and the tasks that it waits for take no more from the journal than the view
shows. -/
def Sees (view : Journal σ → τ) {α : Type} : Routine σ α → Prop
  | .done _ => True
  | .panic _ => True
  | .act step next =>
    (∀ now before before', view before = view before' →
      ((step.run now).run before).1 = ((step.run now).run before').1) ∧
    ∀ answer, (next answer).Sees view
  | .sleep _ next => ∀ answer, (next answer).Sees view
  | .spawn _ next => ∀ answer, (next answer).Sees view
  | .await _ task next => task.Sees view ∧ ∀ ended, (next ended).Sees view
  | .guarded inner _ next => inner.Sees view ∧ ∀ ended, (next ended).Sees view
  | .openQueue next => ∀ queue, (next queue).Sees view
  | .enqueue _ _ next => ∀ accepted, (next accepted).Sees view
  | .queued _ next => ∀ count, (next count).Sees view
  | .release _ next => ∀ any, (next any).Sees view

variable {view : Journal σ → τ}

/-- Every routine sees the whole journal. -/
theorem sees_id (r : Routine σ α) : r.Sees id := by
  induction r with
  | done | panic => trivial
  | act step next ih =>
      refine ⟨?_, ih⟩
      rintro now before _ rfl
      rfl
  | sleep _ _ ih | openQueue _ ih | queued _ _ ih | release _ _ ih => exact ih
  | spawn _ _ _ ih | enqueue _ _ _ _ ih => exact ih
  | await _ _ _ ihtask ih => exact ⟨ihtask, ih⟩
  | guarded _ _ _ ihinner _ ih => exact ⟨ihinner, ih⟩

theorem Sees.bind {r : Routine σ α} {f : α → Routine σ β} (hr : r.Sees view)
    (hf : ∀ value, (f value).Sees view) : (r >>= f).Sees view := by
  change (r.bind f).Sees view
  induction r with
  | done value => exact hf value
  | panic => trivial
  | act _ _ ih => exact ⟨hr.1, fun answer => ih answer (hr.2 answer) hf⟩
  | sleep _ _ ih | openQueue _ ih | queued _ _ ih | release _ _ ih =>
      exact fun answer => ih answer (hr answer) hf
  | spawn _ _ _ ih | enqueue _ _ _ _ ih => exact fun answer => ih answer (hr answer) hf
  | await _ _ _ _ ih => exact ⟨hr.1, fun ended => ih ended (hr.2 ended) hf⟩
  | guarded _ _ _ _ _ ih => exact ⟨hr.1, fun ended => ih ended (hr.2 ended) hf⟩

theorem sees_pure (value : α) : (pure value : Routine σ α).Sees view :=
  trivial

theorem sees_report (event : Event) : (report event : Routine σ Unit).Sees view :=
  ⟨fun _ _ _ _ => rfl, fun _ => trivial⟩

/-- Of two runs that are given the same, however each goes on, the values are the same, and so is
what is given behind them. -/
def Determined (view : Journal σ → τ) (runs : List (Step σ) → β → Prop) : Prop :=
  ∀ {steps steps' rest rest' : List (Step σ)} {ended ended' : β}, runs steps ended →
    runs steps' ended' → AllAlike view (steps ++ rest) (steps' ++ rest') →
    ended = ended' ∧ AllAlike view rest rest'

/-- A step that is given its answer. -/
theorem Determined.answer {step : β → Step σ}
    (hstep : ∀ given given', (step given).Alike view (step given') → given = given') :
    Determined view fun steps given => steps = [step given] := by
  rintro _ _ _ _ given given' rfl rfl halike
  obtain ⟨hsame, hrest⟩ := List.forall₂_cons.mp halike
  exact ⟨hstep given given' hsame, hrest⟩

theorem Determined.asks {answers : List (Step σ) → β → Prop}
    {follows : β → List (Step σ) → Outcome α → Prop} (hanswers : Determined view answers)
    (hfollows : ∀ answer, Determined view (follows answer)) :
    Determined view (Asks answers follows) := by
  rintro _ _ rest rest' ended ended' ⟨answer, first, last, rfl, hanswer, hlast⟩
    ⟨answer', first', last', rfl, hanswer', hlast'⟩ halike
  rw [List.append_assoc, List.append_assoc] at halike
  obtain ⟨rfl, halike⟩ := hanswers hanswer hanswer' halike
  exact hfollows answer hlast hlast' halike

theorem Sees.determined {r : Routine σ α} (hsees : r.Sees view) : Determined view r.Runs := by
  -- A run does not say where its first step ends, so what is left behind it is carried along.
  induction r with
  | done value =>
      rintro _ _ _ _ _ _ ⟨rfl, rfl⟩ ⟨rfl, rfl⟩ halike
      exact ⟨rfl, halike⟩
  | panic text =>
      rintro _ _ _ _ _ _ ⟨rfl, rfl⟩ ⟨rfl, rfl⟩ halike
      exact ⟨rfl, halike⟩
  | act step next ih =>
      refine Determined.asks ?_ fun answer => ih answer (hsees.2 answer)
      rintro _ _ _ _ _ _ ⟨now, before, rfl, rfl⟩ ⟨now', before', rfl, rfl⟩ halike
      obtain ⟨⟨hview⟩, hrest⟩ := List.forall₂_cons.mp halike
      exact ⟨hsees.1 now before before' hview, hrest⟩
  | sleep _ _ ih =>
      refine Determined.asks ?_ fun answer => ih answer (hsees answer)
      rintro _ _ _ _ _ _ rfl rfl halike
      exact ⟨rfl, (List.forall₂_cons.mp halike).2⟩
  | spawn _ _ _ ih =>
      refine Determined.asks ?_ fun answer => ih answer (hsees answer)
      rintro _ _ _ _ _ _ rfl rfl halike
      exact ⟨rfl, (List.forall₂_cons.mp halike).2⟩
  | await _ _ _ ihtask ih =>
      exact Determined.asks (ihtask hsees.1) fun ended => ih ended (hsees.2 ended)
  | guarded _ _ _ ihinner _ ih =>
      exact Determined.asks (ihinner hsees.1) fun ended => ih ended (hsees.2 ended)
  | openQueue _ ih =>
      refine Determined.asks (Determined.answer ?_) fun queue => ih queue (hsees queue)
      rintro queue _ ⟨⟩
      rfl
  | enqueue _ _ _ _ ih =>
      refine Determined.asks (Determined.answer ?_) fun accepted => ih accepted (hsees accepted)
      rintro accepted _ ⟨⟩
      rfl
  | queued _ _ ih =>
      refine Determined.asks (Determined.answer ?_) fun count => ih count (hsees count)
      rintro count _ ⟨⟩
      rfl
  | release _ _ ih =>
      refine Determined.asks (Determined.answer ?_) fun any => ih any (hsees any)
      rintro any _ ⟨⟩
      rfl

/-- Two whole runs that are given the same end alike. -/
theorem Sees.outcome_eq {r : Routine σ α} (hsees : r.Sees view) {steps steps' : List (Step σ)}
    {outcome outcome' : Outcome α} (hruns : r.Runs steps outcome) (hruns' : r.Runs steps' outcome')
    (halike : AllAlike view steps steps') : outcome = outcome' := by
  have halike : AllAlike view (steps ++ []) (steps' ++ []) := by
    rw [List.append_nil, List.append_nil]
    exact halike
  exact (hsees.determined hruns hruns' halike).1

/-! ## Routines that are functions of their arguments -/

/-- How the routine ends does not depend on what it is given. -/
def Settled (r : Routine σ α) : Prop :=
  ∃ outcome, ∀ steps ended, r.Runs steps ended → ended = outcome

theorem settled_pure (value : α) : (pure value : Routine σ α).Settled :=
  ⟨.finished value, fun _ _ hruns => hruns.2⟩

theorem settled_report (event : Event) : (report event : Routine σ Unit).Settled :=
  ⟨.finished (), fun steps ended hruns => ((runs_report event steps ended).mp hruns).2⟩

theorem Settled.eq {r : Routine σ α} (hsettled : r.Settled) {steps steps' : List (Step σ)}
    {ended ended' : Outcome α} (hruns : r.Runs steps ended) (hruns' : r.Runs steps' ended') :
    ended = ended' := by
  obtain ⟨outcome, houtcome⟩ := hsettled
  rw [houtcome steps ended hruns, houtcome steps' ended' hruns']

/-- However the two routines run, they end alike. -/
def Agree (r r' : Routine σ α) : Prop :=
  ∀ steps ended steps' ended', r.Runs steps ended → r'.Runs steps' ended' → ended = ended'

theorem Settled.agree {r : Routine σ α} (hsettled : r.Settled) : r.Agree r :=
  fun _ _ _ _ hruns hruns' => hsettled.eq hruns hruns'

theorem Agree.bind {r r' : Routine σ α} {f f' : α → Routine σ β} (hr : r.Agree r')
    (hf : ∀ value, (f value).Agree (f' value)) : (r >>= f).Agree (r' >>= f') := by
  intro steps ended steps' ended' hruns hruns'
  rw [runs_bind] at hruns hruns'
  rcases hruns with ⟨text, hpanic, rfl⟩ | ⟨value, before, rest, rfl, hbefore, hrest⟩ <;>
    rcases hruns' with ⟨text', hpanic', rfl⟩ | ⟨value', before', rest', rfl, hbefore', hrest'⟩
  · have hsame := hr _ _ _ _ hpanic hpanic'
    rw [Outcome.panicked.injEq] at hsame
    rw [hsame]
  · exact absurd (hr _ _ _ _ hpanic hbefore') (by simp)
  · exact absurd (hr _ _ _ _ hbefore hpanic') (by simp)
  · have hsame := hr _ _ _ _ hbefore hbefore'
    rw [Outcome.finished.injEq] at hsame
    subst hsame
    exact hf value _ _ _ _ hrest hrest'

theorem Settled.bind {r : Routine σ α} {f : α → Routine σ β} (hr : r.Settled)
    (hf : ∀ value, (f value).Settled) : (r >>= f).Settled := by
  obtain ⟨first, hfirst⟩ := hr
  cases first with
  | panicked text =>
      refine ⟨.panicked text, ?_⟩
      intro steps ended hruns
      rw [runs_bind] at hruns
      rcases hruns with ⟨other, hpanic, rfl⟩ | ⟨value, before, _, _, hbefore, _⟩
      · have hsame := hfirst _ _ hpanic
        rw [Outcome.panicked.injEq] at hsame
        rw [hsame]
      · exact absurd (hfirst _ _ hbefore) (by simp)
  | finished value =>
      obtain ⟨last, hlast⟩ := hf value
      refine ⟨last, ?_⟩
      intro steps ended hruns
      rw [runs_bind] at hruns
      rcases hruns with ⟨text, hpanic, -⟩ | ⟨other, before, rest, rfl, hbefore, hrest⟩
      · exact absurd (hfirst _ _ hpanic) (by simp)
      · have hsame := hfirst _ _ hbefore
        rw [Outcome.finished.injEq] at hsame
        subst hsame
        exact hlast rest ended hrest

end Routine
end WebApp
