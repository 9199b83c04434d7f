import Mathlib.Tactic
import WebApp.Task.World

/-!
# Runs of a routine

A run is what a routine and the tasks that it waits for do, in order, up to its end.  Other
tasks may write the journal and use the queues between any two of its steps, so that a run
starts each step from a journal of their choice.  What holds of all runs holds whatever else
is going on.
-/

namespace WebApp

universe u

variable {σ α β : Type}

/-- A step of a run. -/
inductive Step (σ : Type) : Type 1 where
  | act (now : Nat) (before after : Journal σ)
  | sleep (duration : Nat)
  | spawn (task : Routine σ Unit)
  | openQueue (queue : Queue)
  | enqueue (queue : Queue) (work : Routine σ (Except Error Unit)) (accepted : Bool)
  | queued (queue : Queue) (count : Nat)
  | release (queue : Queue) (any : Bool)

/-- With these steps a task that has ended so comes to this for the one who has waited for it. -/
inductive Outcome.Joins : Outcome (Except Error α) → List (Step σ) → Except Error α → Prop where
  | finished (result : Except Error α) : Joins (.finished result) [] result
  | panicked (text : String) (now : Nat) (journal : Journal σ) :
      Joins (.panicked text) [.act now journal journal] (.error (.ofPanic text journal.frames))

theorem Outcome.Joins.exists_frames {ended : Outcome (Except Error α)} {steps : List (Step σ)}
    {result : Except Error α} (hjoins : ended.Joins steps result) :
    ∃ frames, result = ended.result frames := by
  cases hjoins with
  | finished => exact ⟨[], rfl⟩
  | panicked _ _ journal => exact ⟨journal.frames, rfl⟩

namespace Routine

/-- Something is asked for, and what follows depends on the answer. -/
def Asks {γ : Type} {ε : Type u} (answers : List (Step σ) → γ → Prop)
    (follows : γ → List (Step σ) → ε → Prop) (steps : List (Step σ)) (result : ε) : Prop :=
  ∃ answer first rest, steps = first ++ rest ∧ answers first answer ∧ follows answer rest result

/-- The routine can make these steps and end so. -/
def Runs {α : Type} : Routine σ α → List (Step σ) → Outcome α → Prop
  | .done value => fun steps outcome => steps = [] ∧ outcome = .finished value
  | .panic text => fun steps outcome => steps = [] ∧ outcome = .panicked text
  | .act step next =>
    Asks (fun first answer => ∃ now before,
      first = [.act now before ((step.run now).run before).2] ∧
        answer = ((step.run now).run before).1) fun answer => (next answer).Runs
  | .sleep duration next =>
    Asks (fun first (_ : Unit) => first = [.sleep duration]) fun answer => (next answer).Runs
  | .spawn task next =>
    Asks (fun first (_ : Unit) => first = [.spawn task]) fun answer => (next answer).Runs
  | .await _ task next => Asks task.Runs fun ended => (next ended).Runs
  | .guarded inner _ next => Asks inner.Runs fun ended => (next ended).Runs
  | .openQueue next =>
    Asks (fun first queue => first = [.openQueue queue]) fun queue => (next queue).Runs
  | .enqueue queue work next =>
    Asks (fun first accepted => first = [.enqueue queue work accepted])
      fun accepted => (next accepted).Runs
  | .queued queue next =>
    Asks (fun first count => first = [.queued queue count]) fun count => (next count).Runs
  | .release queue next =>
    Asks (fun first any => first = [.release queue any]) fun any => (next any).Runs

@[simp] theorem runs_pure (value : α) (steps : List (Step σ)) (outcome : Outcome α) :
    (pure value : Routine σ α).Runs steps outcome ↔ steps = [] ∧ outcome = .finished value :=
  Iff.rfl

/-- A run of one routine and then another: the first panics, or it is followed. -/
def Follows (first : List (Step σ) → Outcome α → Prop)
    (second : α → List (Step σ) → Outcome β → Prop) (steps : List (Step σ))
    (outcome : Outcome β) : Prop :=
  (∃ text, first steps (.panicked text) ∧ outcome = .panicked text) ∨
    Asks (fun before value => first before (.finished value)) second steps outcome

theorem asks_follows_iff {γ : Type} (answers : List (Step σ) → γ → Prop)
    (first : γ → List (Step σ) → Outcome α → Prop)
    (second : α → List (Step σ) → Outcome β → Prop) (steps : List (Step σ))
    (outcome : Outcome β) :
    Asks answers (fun answer => Follows (first answer) second) steps outcome ↔
      Follows (Asks answers first) second steps outcome := by
  constructor
  · rintro ⟨answer, asked, rest, rfl, hanswer, ⟨text, hpanic, rfl⟩ | hfollowed⟩
    · exact .inl ⟨text, ⟨answer, asked, rest, rfl, hanswer, hpanic⟩, rfl⟩
    · obtain ⟨value, middle, last, rfl, hfirst, hsecond⟩ := hfollowed
      exact .inr ⟨value, asked ++ middle, last, (List.append_assoc _ _ _).symm,
        ⟨answer, asked, middle, rfl, hanswer, hfirst⟩, hsecond⟩
  · rintro (⟨text, ⟨answer, asked, rest, rfl, hanswer, hpanic⟩, rfl⟩ |
      ⟨value, _, last, rfl, ⟨answer, asked, middle, rfl, hanswer, hfirst⟩, hsecond⟩)
    · exact ⟨answer, asked, rest, rfl, hanswer, .inl ⟨text, hpanic, rfl⟩⟩
    · exact ⟨answer, asked, middle ++ last, List.append_assoc _ _ _, hanswer,
        .inr ⟨value, middle, last, rfl, hfirst, hsecond⟩⟩

theorem runs_bind (r : Routine σ α) (f : α → Routine σ β) :
    (r >>= f).Runs = Follows r.Runs fun value => (f value).Runs := by
  change (r.bind f).Runs = _
  induction r with
  | done value =>
      funext steps outcome
      simp [Routine.bind, Runs, Follows, Asks]
  | panic text =>
      funext steps outcome
      simp [Routine.bind, Runs, Follows, Asks]
  | await _ _ _ _ ih | guarded _ _ _ _ _ ih | spawn _ _ _ ih | enqueue _ _ _ _ ih =>
      funext steps outcome
      simp only [Routine.bind, Runs, ih, asks_follows_iff]
  | act _ _ ih | sleep _ _ ih | openQueue _ ih | queued _ _ ih | release _ _ ih =>
      funext steps outcome
      simp only [Routine.bind, Runs, ih, asks_follows_iff]

theorem follow_of_finished {r : Routine σ α} {f : α → Routine σ β} {steps : List (Step σ)}
    {value : β} (hruns : (r >>= f).Runs steps (.finished value)) :
    ∃ middle first last, steps = first ++ last ∧ r.Runs first (.finished middle) ∧
      (f middle).Runs last (.finished value) := by
  rw [runs_bind] at hruns
  rcases hruns with ⟨text, -, hnever⟩ | hfollowed
  · exact absurd hnever (by simp)
  · exact hfollowed

theorem exists_runs_of_map {f : α → β} {r : Routine σ α} {steps : List (Step σ)} {value : β}
    (hruns : (f <$> r).Runs steps (.finished value)) :
    ∃ given, r.Runs steps (.finished given) ∧ value = f given := by
  rw [map_eq_pure_bind] at hruns
  obtain ⟨given, first, last, rfl, hfirst, rfl, hvalue⟩ := follow_of_finished hruns
  exact ⟨given, by simpa using hfirst, Outcome.finished.inj hvalue⟩

theorem runs_map_of_panicked (f : α → β) {r : Routine σ α} {steps : List (Step σ)} {text : String}
    (hruns : r.Runs steps (.panicked text)) : (f <$> r).Runs steps (.panicked text) := by
  rw [map_eq_pure_bind, runs_bind]
  exact .inl ⟨text, hruns, rfl⟩

/-- No run of the routine panics. -/
def Finishes (r : Routine σ α) : Prop :=
  ∀ steps outcome, r.Runs steps outcome → ∃ value, outcome = .finished value

theorem Finishes.of_bind {r : Routine σ α} (hfinishes : r.Finishes) {f : α → Routine σ β}
    {steps : List (Step σ)} {outcome : Outcome β} (hruns : (r >>= f).Runs steps outcome) :
    ∃ value first last, steps = first ++ last ∧ r.Runs first (.finished value) ∧
      (f value).Runs last outcome := by
  rw [runs_bind] at hruns
  rcases hruns with ⟨text, hpanic, -⟩ | hfollowed
  · obtain ⟨value, hvalue⟩ := hfinishes _ _ hpanic
    exact absurd hvalue (by simp)
  · exact hfollowed

/-- Someone who waits for a task sees how it ended. -/
theorem runs_await (task : Routine σ α) (steps : List (Step σ)) (outcome : Outcome (Outcome α)) :
    (Tasks.await task : Routine σ (Outcome α)).Runs steps outcome ↔
      ∃ ended, task.Runs steps ended ∧ outcome = .finished ended := by
  constructor
  · rintro ⟨ended, first, rest, rfl, htask, rfl, rfl⟩
    exact ⟨ended, by simpa using htask, rfl⟩
  · rintro ⟨ended, htask, rfl⟩
    exact ⟨ended, steps, [], by simp, htask, rfl, rfl⟩

/-- A panic stays in the task that is waited for. -/
theorem runs_await_bind (task : Routine σ α) (f : Outcome α → Routine σ β) (steps : List (Step σ))
    (outcome : Outcome β) :
    (Tasks.await task >>= f).Runs steps outcome ↔
      ∃ ended first rest, steps = first ++ rest ∧ task.Runs first ended ∧
        (f ended).Runs rest outcome :=
  Iff.rfl

theorem runs_guarded (inner : Routine σ α) (dropped : Routine σ Unit) (steps : List (Step σ))
    (outcome : Outcome (Outcome α)) :
    (Tasks.guarded inner dropped : Routine σ (Outcome α)).Runs steps outcome ↔
      ∃ ended, inner.Runs steps ended ∧ outcome = .finished ended := by
  constructor
  · rintro ⟨ended, first, rest, rfl, hinner, rfl, rfl⟩
    exact ⟨ended, by simpa using hinner, rfl⟩
  · rintro ⟨ended, hinner, rfl⟩
    exact ⟨ended, steps, [], by simp, hinner, rfl, rfl⟩

theorem runs_guarded_bind (inner : Routine σ α) (dropped : Routine σ Unit)
    (f : Outcome α → Routine σ β) (steps : List (Step σ)) (outcome : Outcome β) :
    (Tasks.guarded inner dropped >>= f).Runs steps outcome ↔
      ∃ ended first rest, steps = first ++ rest ∧ inner.Runs first ended ∧
        (f ended).Runs rest outcome :=
  Iff.rfl

/-- Someone who waits for a task sees its result, or else an error of the panic: only for that
are frames read. -/
theorem runs_join (ended : Outcome (Except Error α)) (steps : List (Step σ))
    (outcome : Outcome (Except Error α)) :
    (ended.join : Routine σ (Except Error α)).Runs steps outcome ↔
      ∃ result, ended.Joins steps result ∧ outcome = .finished result := by
  cases ended with
  | finished result =>
      constructor
      · rintro ⟨rfl, rfl⟩
        exact ⟨result, .finished result, rfl⟩
      · rintro ⟨_, ⟨⟩, rfl⟩
        exact ⟨rfl, rfl⟩
  | panicked text =>
      constructor
      · rintro ⟨_, _, _, rfl, ⟨now, journal, rfl, rfl⟩, rfl, rfl⟩
        exact ⟨_, .panicked text now journal, rfl⟩
      · rintro ⟨_, hjoins, rfl⟩
        cases hjoins with
        | panicked _ now journal => exact ⟨_, _, [], rfl, ⟨now, journal, rfl, rfl⟩, rfl, rfl⟩

theorem finishes_join (ended : Outcome (Except Error α)) :
    (ended.join : Routine σ (Except Error α)).Finishes := by
  intro steps outcome hruns
  obtain ⟨result, -, houtcome⟩ := (runs_join ended steps outcome).mp hruns
  exact ⟨result, houtcome⟩

/-- Someone who waits for a task and wants its result. -/
theorem runs_await_join (task : Routine σ (Except Error α)) (steps : List (Step σ))
    (outcome : Outcome (Except Error α)) :
    (do (← Tasks.await task).join : Routine σ (Except Error α)).Runs steps outcome ↔
      ∃ working joining ended result, steps = working ++ joining ∧ task.Runs working ended ∧
        ended.Joins joining result ∧ outcome = .finished result := by
  rw [runs_await_bind]
  constructor
  · rintro ⟨ended, working, joining, rfl, htask, hjoin⟩
    obtain ⟨result, hjoins, rfl⟩ := (runs_join _ _ _).mp hjoin
    exact ⟨working, joining, ended, result, rfl, htask, hjoins, rfl⟩
  · rintro ⟨working, joining, ended, result, rfl, htask, hjoins, rfl⟩
    exact ⟨ended, working, joining, rfl, htask, (runs_join _ _ _).mpr ⟨result, hjoins, rfl⟩⟩

/-- It makes no difference that the task runs with the workers. -/
theorem runs_offload_join (task : Routine σ (Except Error α)) (steps : List (Step σ))
    (outcome : Outcome (Except Error α)) :
    (do (← Tasks.offload task).join : Routine σ (Except Error α)).Runs steps outcome ↔
      ∃ working joining ended result, steps = working ++ joining ∧ task.Runs working ended ∧
        ended.Joins joining result ∧ outcome = .finished result :=
  runs_await_join task steps outcome

/-- All that the routine does is to give this value. -/
def Gives (r : Routine σ α) (value : α) : Prop :=
  ∀ steps outcome, r.Runs steps outcome ↔ steps = [] ∧ outcome = .finished value

theorem gives_pure (value : α) : (pure value : Routine σ α).Gives value :=
  runs_pure value

theorem Gives.bind {r : Routine σ α} {f : α → Routine σ β} {value : α} {result : β}
    (hfirst : r.Gives value) (hsecond : (f value).Gives result) : (r >>= f).Gives result := by
  intro steps outcome
  rw [runs_bind]
  constructor
  · rintro (⟨text, hpanic, -⟩ | ⟨given, first, rest, rfl, hgiven, hrest⟩)
    · exact absurd ((hfirst _ _).mp hpanic).2 (by simp)
    · obtain ⟨rfl, hvalue⟩ := (hfirst _ _).mp hgiven
      obtain rfl := Outcome.finished.inj hvalue
      exact (hsecond _ _).mp hrest
  · intro hresult
    exact .inr ⟨value, [], steps, rfl, (hfirst _ _).mpr ⟨rfl, rfl⟩, (hsecond _ _).mpr hresult⟩

theorem Gives.attempt {r : Routine σ α} {value : α} (hgives : r.Gives value) :
    (Tasks.attempt r).Gives (.finished value) := by
  intro steps outcome
  rw [Tasks.attempt, runs_guarded]
  constructor
  · rintro ⟨ended, hruns, rfl⟩
    obtain ⟨rfl, rfl⟩ := (hgives _ _).mp hruns
    exact ⟨rfl, rfl⟩
  · rintro ⟨rfl, rfl⟩
    exact ⟨_, (hgives _ _).mpr ⟨rfl, rfl⟩, rfl⟩

theorem runs_report (event : Event) (steps : List (Step σ)) (outcome : Outcome Unit) :
    (report event : Routine σ Unit).Runs steps outcome ↔
      (∃ now before, steps =
        [.act now before { before with events := event :: before.events }]) ∧
      outcome = .finished () := by
  constructor
  · rintro ⟨⟨⟩, _, rest, rfl, ⟨now, before, rfl, -⟩, rfl, rfl⟩
    exact ⟨⟨now, before, rfl⟩, rfl⟩
  · rintro ⟨⟨now, before, rfl⟩, rfl⟩
    exact ⟨(), [.act now before { before with events := event :: before.events }], [], rfl,
      ⟨now, before, rfl, rfl⟩, rfl, rfl⟩

theorem runs_report_bind (event : Event) (f : Unit → Routine σ α) (steps : List (Step σ))
    (outcome : Outcome α) :
    (report event >>= f).Runs steps outcome ↔
      ∃ now before rest,
        steps = .act now before { before with events := event :: before.events } :: rest ∧
        (f ()).Runs rest outcome := by
  constructor
  · rintro ⟨⟨⟩, _, rest, rfl, ⟨now, before, rfl, -⟩, hrest⟩
    exact ⟨now, before, rest, rfl, hrest⟩
  · rintro ⟨now, before, rest, rfl, hrest⟩
    exact ⟨(), [_], rest, rfl, ⟨now, before, rfl, rfl⟩, hrest⟩

theorem finishes_report (event : Event) : (report event : Routine σ Unit).Finishes :=
  fun steps outcome hruns => ⟨(), ((runs_report event steps outcome).mp hruns).2⟩

theorem exists_asks {γ : Type} {answers : List (Step σ) → γ → Prop}
    {follows : γ → List (Step σ) → Outcome α → Prop}
    (hanswer : ∃ first answer, answers first answer)
    (hfollows : ∀ answer, ∃ rest outcome, follows answer rest outcome) :
    ∃ steps outcome, Asks answers follows steps outcome := by
  obtain ⟨first, answer, hanswer⟩ := hanswer
  obtain ⟨rest, outcome, hrest⟩ := hfollows answer
  exact ⟨first ++ rest, outcome, answer, first, rest, rfl, hanswer, hrest⟩

/-- Every routine has a run. -/
theorem exists_runs (journal : Journal σ) (r : Routine σ α) :
    ∃ steps outcome, r.Runs steps outcome := by
  induction r with
  | done value => exact ⟨[], .finished value, rfl, rfl⟩
  | panic text => exact ⟨[], .panicked text, rfl, rfl⟩
  | act step next ih => exact exists_asks ⟨_, _, 0, journal, rfl, rfl⟩ ih
  | sleep duration next ih => exact exists_asks ⟨_, (), rfl⟩ ih
  | spawn task next _ ih => exact exists_asks ⟨_, (), rfl⟩ ih
  | await place task next ihtask ih => exact exists_asks ihtask ih
  | guarded inner dropped next ihinner _ ih => exact exists_asks ihinner ih
  | openQueue next ih => exact exists_asks ⟨_, ⟨0⟩, rfl⟩ ih
  | enqueue queue work next _ ih => exact exists_asks ⟨_, true, rfl⟩ ih
  | queued queue next ih => exact exists_asks ⟨_, 0, rfl⟩ ih
  | release queue next ih => exact exists_asks ⟨_, true, rfl⟩ ih

end Routine

/-- What a thread can still do up to its end. -/
def Thread.Runs {α : Type} : Thread σ α → List (Step σ) → Outcome α → Prop
  | .running rest => rest.Runs
  | .waiting task next => Routine.Asks task.Runs fun ended => (next ended).Runs
  | .guarding inner _ next => Routine.Asks inner.Runs fun ended => (next ended).Runs

end WebApp
