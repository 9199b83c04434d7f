import Mathlib.Tactic
import WebApp.Proofs.Task.Runs

/-!
# Where a run pauses

A routine that waits for something is a thread, and may be given up there.  The places where a
routine can pause are determined by its text as its runs are: a pause lies behind some steps, and
what the thread still does from there completes them to a run.  Giving a thread up leaves the task
that it waits for, and runs what was set aside for this in the parts around it.
-/

namespace WebApp

universe u

variable {σ α β : Type}

namespace Routine

/-- The routine can have made these steps and be waiting as this thread. -/
def Reaches {α : Type} : Routine σ α → List (Step σ) → Thread σ α → Prop
  | .done _ => fun _ _ => False
  | .panic _ => fun _ _ => False
  | .act step next =>
    Asks (fun first answer => ∃ now before,
      first = [.act now before ((step.run now).run before).2] ∧
        answer = ((step.run now).run before).1) fun answer => (next answer).Reaches
  | .sleep duration next => fun steps thread =>
    (steps = [.sleep duration] ∧ thread = .running (next ())) ∨
      Asks (fun first (_ : Unit) => first = [.sleep duration]) (fun answer => (next answer).Reaches)
        steps thread
  | .spawn task next =>
    Asks (fun first (_ : Unit) => first = [.spawn task]) fun answer => (next answer).Reaches
  | .await _ task next => fun steps thread =>
    (∃ inner, ((steps = [] ∧ inner = .running task) ∨ task.Reaches steps inner) ∧
      thread = .waiting inner next) ∨
      Asks task.Runs (fun ended steps thread =>
        (steps = [] ∧ thread = .running (next ended)) ∨ (next ended).Reaches steps thread)
        steps thread
  | .guarded inner dropped next => fun steps thread =>
    (∃ part, inner.Reaches steps part ∧ thread = .guarding part dropped next) ∨
      Asks inner.Runs (fun ended => (next ended).Reaches) steps thread
  | .openQueue next =>
    Asks (fun first queue => first = [.openQueue queue]) fun queue => (next queue).Reaches
  | .enqueue queue work next =>
    Asks (fun first accepted => first = [.enqueue queue work accepted])
      fun accepted => (next accepted).Reaches
  | .queued queue next =>
    Asks (fun first count => first = [.queued queue count]) fun count => (next count).Reaches
  | .release queue next =>
    Asks (fun first any => first = [.release queue any]) fun any => (next any).Reaches

end Routine

namespace Thread

/-- The thread can have made these steps since, and be waiting as this one. -/
def Reaches {α : Type} : Thread σ α → List (Step σ) → Thread σ α → Prop
  | .running rest => fun steps thread =>
    (steps = [] ∧ thread = .running rest) ∨ rest.Reaches steps thread
  | .waiting task next => fun steps thread =>
    (∃ inner, task.Reaches steps inner ∧ thread = .waiting inner next) ∨
      Routine.Asks task.Runs (fun ended steps thread =>
        (steps = [] ∧ thread = .running (next ended)) ∨ (next ended).Reaches steps thread)
        steps thread
  | .guarding inner dropped next => fun steps thread =>
    (∃ part, inner.Reaches steps part ∧ thread = .guarding part dropped next) ∨
      Routine.Asks inner.Runs (fun ended => (next ended).Reaches) steps thread

/-- Giving the thread up makes these steps and leaves this strand. -/
def Quits {α : Type} : Thread σ α → Option (Strand σ) → List (Step σ) → Prop
  | .running _ => fun orphan steps => orphan = none ∧ steps = []
  | .waiting task _ => fun orphan steps => orphan = some ⟨task⟩ ∧ steps = []
  | .guarding inner dropped _ => fun orphan steps =>
    ∃ first last, steps = first ++ last ∧ inner.Quits orphan first ∧
      ((∃ ended, dropped.Runs last ended) ∨ ∃ thread, dropped.Reaches last thread)

/-- A thread that goes on with another routine behind its end. -/
def bind {γ : Type} : Thread σ α → (α → Routine σ γ) → Thread σ γ
  | .running rest, f => .running (rest >>= f)
  | .waiting task next, f => .waiting task fun ended => next ended >>= f
  | .guarding inner dropped next, f => .guarding inner dropped fun ended => next ended >>= f

theorem quits_bind (t : Thread σ α) (f : α → Routine σ β) : (t.bind f).Quits = t.Quits := by
  cases t <;> rfl

end Thread

/-- The steps of a strand that goes on by itself, if there is one. -/
def GoesOn : Option (Strand σ) → List (Step σ) → Prop
  | none, steps => steps = []
  | some strand, steps => ∃ ended, strand.thread.Runs steps ended

namespace Routine

/-- A routine and another behind it pause in the first, or in the second when the first has
ended. -/
def PausesIn (reaches : List (Step σ) → Thread σ α → Prop)
    (runs : List (Step σ) → Outcome α → Prop) (f : α → Routine σ β) (steps : List (Step σ))
    (thread : Thread σ β) : Prop :=
  (∃ inner, reaches steps inner ∧ thread = inner.bind f) ∨
    Asks (fun first value => runs first (.finished value)) (fun value => (f value).Reaches) steps
      thread

theorem PausesIn.asks {γ : Type} {answers : List (Step σ) → γ → Prop}
    {reaches : γ → List (Step σ) → Thread σ α → Prop}
    {runs : γ → List (Step σ) → Outcome α → Prop} {f : α → Routine σ β} {steps : List (Step σ)}
    {thread : Thread σ β}
    (hpauses : Asks answers (fun answer => PausesIn (reaches answer) (runs answer) f) steps
      thread) :
    PausesIn (Asks answers reaches) (Asks answers runs) f steps thread := by
  obtain ⟨answer, asked, rest, rfl, hanswer, ⟨inner, hreaches, hthread⟩ | hsecond⟩ := hpauses
  · exact .inl ⟨inner, ⟨answer, asked, rest, rfl, hanswer, hreaches⟩, hthread⟩
  · obtain ⟨value, middle, last, rfl, hruns, hlast⟩ := hsecond
    exact .inr ⟨value, asked ++ middle, last, (List.append_assoc _ _ _).symm,
      ⟨answer, asked, middle, rfl, hanswer, hruns⟩, hlast⟩

theorem Reaches.of_bind {r : Routine σ α} {f : α → Routine σ β} {steps : List (Step σ)}
    {thread : Thread σ β} (hreaches : (r >>= f).Reaches steps thread) :
    PausesIn r.Reaches r.Runs f steps thread := by
  change (r.bind f).Reaches steps thread at hreaches
  induction r generalizing steps with
  | done value => exact .inr ⟨value, [], steps, rfl, ⟨rfl, rfl⟩, hreaches⟩
  | panic text => exact hreaches.elim
  | act _ _ ih | openQueue _ ih | queued _ _ ih | release _ _ ih =>
      obtain ⟨answer, first, rest, rfl, hanswer, hrest⟩ := hreaches
      exact PausesIn.asks ⟨answer, first, rest, rfl, hanswer, ih answer hrest⟩
  | spawn _ _ _ ih | enqueue _ _ _ _ ih =>
      obtain ⟨answer, first, rest, rfl, hanswer, hrest⟩ := hreaches
      exact PausesIn.asks ⟨answer, first, rest, rfl, hanswer, ih answer hrest⟩
  | sleep duration next ih =>
      rcases hreaches with ⟨rfl, rfl⟩ | ⟨answer, first, rest, rfl, hanswer, hrest⟩
      · exact .inl ⟨.running (next ()), .inl ⟨rfl, rfl⟩, rfl⟩
      · have hlater : PausesIn
            (Asks (fun asked (_ : Unit) => asked = [.sleep duration]) fun answer =>
              (next answer).Reaches)
            (Routine.sleep duration next).Runs f (first ++ rest) thread :=
          PausesIn.asks ⟨answer, first, rest, rfl, hanswer, ih answer hrest⟩
        exact hlater.imp_left fun ⟨inner, hinner, hthread⟩ => ⟨inner, .inr hinner, hthread⟩
  | await place task next _ ih =>
      rcases hreaches with ⟨inner, hinner, rfl⟩ | ⟨ended, first, rest, rfl, hended, hrest⟩
      · exact .inl ⟨.waiting inner next, .inl ⟨inner, hinner, rfl⟩, rfl⟩
      · rcases hrest with ⟨rfl, rfl⟩ | hrest
        · exact .inl ⟨.running (next ended),
            .inr ⟨ended, first, [], rfl, hended, .inl ⟨rfl, rfl⟩⟩, rfl⟩
        · rcases ih ended hrest with ⟨inner, hinner, hthread⟩ | hsecond
          · exact .inl ⟨inner, .inr ⟨ended, first, rest, rfl, hended, .inr hinner⟩, hthread⟩
          · obtain ⟨value, middle, last, rfl, hruns, hlast⟩ := hsecond
            exact .inr ⟨value, first ++ middle, last, (List.append_assoc _ _ _).symm,
              ⟨ended, first, middle, rfl, hended, hruns⟩, hlast⟩
  | guarded inner dropped next _ _ ih =>
      rcases hreaches with ⟨part, hpart, rfl⟩ | ⟨ended, first, rest, rfl, hended, hrest⟩
      · exact .inl ⟨.guarding part dropped next, .inl ⟨part, hpart, rfl⟩, rfl⟩
      · have hlater : PausesIn (Asks inner.Runs fun ended => (next ended).Reaches)
            (Routine.guarded inner dropped next).Runs f (first ++ rest) thread :=
          PausesIn.asks ⟨ended, first, rest, rfl, hended, ih ended hrest⟩
        exact hlater.imp_left fun ⟨inner, hinner, hthread⟩ => ⟨inner, .inr hinner, hthread⟩

/-! ## From a pause to the end -/

/-- What a thread does from a pause on completes the steps so far. -/
theorem Reaches.runs {r : Routine σ α} {steps : List (Step σ)} {thread : Thread σ α}
    (hreaches : r.Reaches steps thread) {rest : List (Step σ)} {outcome : Outcome α}
    (hruns : thread.Runs rest outcome) : r.Runs (steps ++ rest) outcome := by
  induction r generalizing steps rest with
  | done | panic => exact hreaches.elim
  | act _ _ ih | openQueue _ ih | queued _ _ ih | release _ _ ih =>
      obtain ⟨answer, first, later, rfl, hanswer, hlater⟩ := hreaches
      exact ⟨answer, first, later ++ rest, List.append_assoc _ _ _, hanswer,
        ih answer hlater hruns⟩
  | spawn _ _ _ ih | enqueue _ _ _ _ ih =>
      obtain ⟨answer, first, later, rfl, hanswer, hlater⟩ := hreaches
      exact ⟨answer, first, later ++ rest, List.append_assoc _ _ _, hanswer,
        ih answer hlater hruns⟩
  | sleep duration next ih =>
      rcases hreaches with ⟨rfl, rfl⟩ | ⟨answer, first, later, rfl, hanswer, hlater⟩
      · exact ⟨(), [.sleep duration], rest, rfl, rfl, hruns⟩
      · exact ⟨answer, first, later ++ rest, List.append_assoc _ _ _, hanswer,
          ih answer hlater hruns⟩
  | await place task next ihtask ih =>
      rcases hreaches with ⟨inner, hinner, rfl⟩ | ⟨ended, first, later, rfl, hended, hlater⟩
      · obtain ⟨ended, middle, last, rfl, htask, hlast⟩ := hruns
        have hwhole : task.Runs (steps ++ middle) ended := by
          rcases hinner with ⟨rfl, rfl⟩ | hinner
          · exact htask
          · exact ihtask hinner htask
        exact ⟨ended, steps ++ middle, last, (List.append_assoc _ _ _).symm, hwhole, hlast⟩
      · have hnext : (next ended).Runs (later ++ rest) outcome := by
          rcases hlater with ⟨rfl, rfl⟩ | hlater
          · exact hruns
          · exact ih ended hlater hruns
        exact ⟨ended, first, later ++ rest, List.append_assoc _ _ _, hended, hnext⟩
  | guarded inner dropped next ihinner _ ih =>
      rcases hreaches with ⟨part, hpart, rfl⟩ | ⟨ended, first, later, rfl, hended, hlater⟩
      · obtain ⟨ended, middle, last, rfl, hrest, hlast⟩ := hruns
        exact ⟨ended, steps ++ middle, last, (List.append_assoc _ _ _).symm,
          ihinner hpart hrest, hlast⟩
      · exact ⟨ended, first, later ++ rest, List.append_assoc _ _ _, hended,
          ih ended hlater hruns⟩

end Routine

theorem Thread.Reaches.runs {t thread : Thread σ α} {steps : List (Step σ)}
    (hreaches : t.Reaches steps thread) {rest : List (Step σ)} {outcome : Outcome α}
    (hruns : thread.Runs rest outcome) : t.Runs (steps ++ rest) outcome := by
  induction t generalizing steps rest with
  | running r =>
      rcases hreaches with ⟨rfl, rfl⟩ | hreaches
      · exact hruns
      · exact hreaches.runs hruns
  | waiting task next ih =>
      rcases hreaches with ⟨inner, hinner, rfl⟩ | ⟨ended, first, later, rfl, hended, hlater⟩
      · obtain ⟨ended, middle, last, rfl, htask, hlast⟩ := hruns
        exact ⟨ended, steps ++ middle, last, (List.append_assoc _ _ _).symm, ih hinner htask, hlast⟩
      · have hnext : (next ended).Runs (later ++ rest) outcome := by
          rcases hlater with ⟨rfl, rfl⟩ | hlater
          · exact hruns
          · exact hlater.runs hruns
        exact ⟨ended, first, later ++ rest, List.append_assoc _ _ _, hended, hnext⟩
  | guarding inner dropped next ih =>
      rcases hreaches with ⟨part, hpart, rfl⟩ | ⟨ended, first, later, rfl, hended, hlater⟩
      · obtain ⟨ended, middle, last, rfl, hrest, hlast⟩ := hruns
        exact ⟨ended, steps ++ middle, last, (List.append_assoc _ _ _).symm, ih hpart hrest, hlast⟩
      · exact ⟨ended, first, later ++ rest, List.append_assoc _ _ _, hended, hlater.runs hruns⟩

/-- A thread that has not gone on is where it was. -/
theorem Thread.reaches_self (t : Thread σ α) : t.Reaches [] t := by
  induction t with
  | running rest => exact .inl ⟨rfl, rfl⟩
  | waiting task next ih => exact .inl ⟨task, ih, rfl⟩
  | guarding inner dropped next ih => exact .inl ⟨inner, ih, rfl⟩

/-- What is reached from a pause is reached. -/
theorem Routine.Reaches.trans {r : Routine σ α} {steps : List (Step σ)} {thread : Thread σ α}
    (hreaches : r.Reaches steps thread) {rest : List (Step σ)} {last : Thread σ α}
    (hlast : thread.Reaches rest last) : r.Reaches (steps ++ rest) last := by
  induction r generalizing steps rest with
  | done | panic => exact hreaches.elim
  | act _ _ ih | openQueue _ ih | queued _ _ ih | release _ _ ih =>
      obtain ⟨answer, first, later, rfl, hanswer, hlater⟩ := hreaches
      exact ⟨answer, first, later ++ rest, List.append_assoc _ _ _, hanswer,
        ih answer hlater hlast⟩
  | spawn _ _ _ ih | enqueue _ _ _ _ ih =>
      obtain ⟨answer, first, later, rfl, hanswer, hlater⟩ := hreaches
      exact ⟨answer, first, later ++ rest, List.append_assoc _ _ _, hanswer,
        ih answer hlater hlast⟩
  | sleep duration next ih =>
      rcases hreaches with ⟨rfl, rfl⟩ | ⟨answer, first, later, rfl, hanswer, hlater⟩
      · rcases hlast with ⟨rfl, rfl⟩ | hlast
        · exact .inl ⟨rfl, rfl⟩
        · exact .inr ⟨(), [.sleep duration], rest, rfl, rfl, hlast⟩
      · exact .inr ⟨answer, first, later ++ rest, List.append_assoc _ _ _, hanswer,
          ih answer hlater hlast⟩
  | await place task next ihtask ih =>
      rcases hreaches with ⟨inner, hinner, rfl⟩ | ⟨ended, first, later, rfl, hended, hlater⟩
      · rcases hlast with ⟨other, hother, rfl⟩ | ⟨ended, middle, last, rfl, hended, hnext⟩
        · refine .inl ⟨other, ?_, rfl⟩
          rcases hinner with ⟨rfl, rfl⟩ | hinner
          · exact hother
          · exact .inr (ihtask hinner hother)
        · have hwhole : task.Runs (steps ++ middle) ended := by
            rcases hinner with ⟨rfl, rfl⟩ | hinner
            · exact hended
            · exact hinner.runs hended
          exact .inr ⟨ended, steps ++ middle, last, (List.append_assoc _ _ _).symm, hwhole, hnext⟩
      · refine .inr ⟨ended, first, later ++ rest, List.append_assoc _ _ _, hended, ?_⟩
        rcases hlater with ⟨rfl, rfl⟩ | hlater
        · exact hlast
        · exact .inr (ih ended hlater hlast)
  | guarded inner dropped next ihinner _ ih =>
      rcases hreaches with ⟨part, hpart, rfl⟩ | ⟨ended, first, later, rfl, hended, hlater⟩
      · rcases hlast with ⟨other, hother, rfl⟩ | ⟨ended, middle, last, rfl, hended, hnext⟩
        · exact .inl ⟨other, ihinner hpart hother, rfl⟩
        · exact .inr ⟨ended, steps ++ middle, last, (List.append_assoc _ _ _).symm,
            hpart.runs hended, hnext⟩
      · exact .inr ⟨ended, first, later ++ rest, List.append_assoc _ _ _, hended,
          ih ended hlater hlast⟩

theorem Thread.Reaches.trans {t thread : Thread σ α} {steps : List (Step σ)}
    (hreaches : t.Reaches steps thread) {rest : List (Step σ)} {last : Thread σ α}
    (hlast : thread.Reaches rest last) : t.Reaches (steps ++ rest) last := by
  induction t generalizing steps rest with
  | running r =>
      rcases hreaches with ⟨rfl, rfl⟩ | hreaches
      · exact hlast
      · exact .inr (hreaches.trans hlast)
  | waiting task next ih =>
      rcases hreaches with ⟨inner, hinner, rfl⟩ | ⟨ended, first, later, rfl, hended, hlater⟩
      · rcases hlast with ⟨other, hother, rfl⟩ | ⟨ended, middle, last, rfl, hended, hnext⟩
        · exact .inl ⟨other, ih hinner hother, rfl⟩
        · exact .inr ⟨ended, steps ++ middle, last, (List.append_assoc _ _ _).symm,
            hinner.runs hended, hnext⟩
      · refine .inr ⟨ended, first, later ++ rest, List.append_assoc _ _ _, hended, ?_⟩
        rcases hlater with ⟨rfl, rfl⟩ | hlater
        · exact hlast
        · exact .inr (hlater.trans hlast)
  | guarding inner dropped next ih =>
      rcases hreaches with ⟨part, hpart, rfl⟩ | ⟨ended, first, later, rfl, hended, hlater⟩
      · rcases hlast with ⟨other, hother, rfl⟩ | ⟨ended, middle, last, rfl, hended, hnext⟩
        · exact .inl ⟨other, ih hpart hother, rfl⟩
        · exact .inr ⟨ended, steps ++ middle, last, (List.append_assoc _ _ _).symm,
            hpart.runs hended, hnext⟩
      · exact .inr ⟨ended, first, later ++ rest, List.append_assoc _ _ _, hended,
          hlater.trans hlast⟩

/-- Every thread has a run. -/
theorem Thread.exists_runs (journal : Journal σ) (t : Thread σ α) :
    ∃ steps outcome, t.Runs steps outcome := by
  induction t with
  | running rest => exact Routine.exists_runs journal rest
  | waiting task next ih =>
      exact Routine.exists_asks ih fun ended => Routine.exists_runs journal (next ended)
  | guarding inner dropped next ih =>
      exact Routine.exists_asks ih fun ended => Routine.exists_runs journal (next ended)

/-! ## Where the parts of a routine pause -/

namespace Routine

/-- The routine never pauses. -/
def Prompt (r : Routine σ α) : Prop :=
  ∀ steps thread, ¬ r.Reaches steps thread

theorem prompt_pure (value : α) : (pure value : Routine σ α).Prompt :=
  fun _ _ hreaches => hreaches

theorem prompt_panic (text : String) : (Tasks.panic text : Routine σ α).Prompt :=
  fun _ _ hreaches => hreaches

theorem prompt_act (step : Act σ α) : (.act step .done : Routine σ α).Prompt := by
  rintro _ _ ⟨_, _, _, _, _, hreaches⟩
  exact hreaches

theorem prompt_report (event : Event) : (report event : Routine σ Unit).Prompt :=
  prompt_act _

theorem prompt_spawn (task : Routine σ Unit) : (Tasks.spawn task : Routine σ Unit).Prompt := by
  rintro _ _ ⟨_, _, _, _, _, hreaches⟩
  exact hreaches

theorem Prompt.bind {r : Routine σ α} {f : α → Routine σ β} (hr : r.Prompt)
    (hf : ∀ value, (f value).Prompt) : (r >>= f).Prompt := by
  intro steps thread hreaches
  rcases hreaches.of_bind with ⟨inner, hinner, -⟩ | ⟨value, _, last, -, -, hlast⟩
  · exact hr _ _ hinner
  · exact hf value _ _ hlast

/-- A pause behind a routine that never pauses is one of what follows. -/
theorem Prompt.reaches_bind {r : Routine σ α} {f : α → Routine σ β} (hr : r.Prompt)
    {steps : List (Step σ)} {thread : Thread σ β} (hreaches : (r >>= f).Reaches steps thread) :
    ∃ value first last, steps = first ++ last ∧ r.Runs first (.finished value) ∧
      (f value).Reaches last thread := by
  rcases hreaches.of_bind with ⟨inner, hinner, -⟩ | hlater
  · exact absurd hinner (hr _ _)
  · exact hlater

/-- One who waits for a task pauses where the task does, before it begins and when it has ended. -/
theorem reaches_await {task : Routine σ α} {steps : List (Step σ)}
    {thread : Thread σ (Outcome α)}
    (hreaches : (Tasks.await task : Routine σ (Outcome α)).Reaches steps thread) :
    (∃ inner, (Thread.running task).Reaches steps inner ∧ thread = .waiting inner .done) ∨
      ∃ ended, task.Runs steps ended ∧ thread = .running (.done ended) := by
  rcases hreaches with hinner | ⟨ended, first, last, rfl, hended, ⟨rfl, rfl⟩ | hnever⟩
  · exact .inl hinner
  · rw [List.append_nil]
    exact .inr ⟨ended, hended, rfl⟩
  · exact hnever.elim

theorem reaches_guarded {inner : Routine σ α} {dropped : Routine σ Unit} {steps : List (Step σ)}
    {thread : Thread σ (Outcome α)}
    (hreaches : (Tasks.guarded inner dropped : Routine σ (Outcome α)).Reaches steps thread) :
    ∃ part, inner.Reaches steps part ∧ thread = .guarding part dropped .done := by
  rcases hreaches with hpart | ⟨_, _, _, _, _, hnever⟩
  · exact hpart
  · exact hnever.elim

theorem Prompt.attempt {r : Routine σ α} (hr : r.Prompt) :
    (Tasks.attempt r : Routine σ (Outcome α)).Prompt := by
  intro steps thread hreaches
  obtain ⟨part, hpart, -⟩ := reaches_guarded hreaches
  exact hr _ _ hpart

end Routine
end WebApp
