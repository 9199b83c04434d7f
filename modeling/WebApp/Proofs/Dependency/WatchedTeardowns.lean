import Mathlib.Tactic
import WebApp.Proofs.Dependency.ScopeRuns
import WebApp.Proofs.Task.History

/-!
# Watched teardowns

A teardown that is watched notes when it is started and when it is over.  What a scope with such
teardowns notes follows from how it releases them: closing starts them one after another from the
newest on, up to one that breaks as it is started; a scope that is dropped, or given up while it is
being closed, leaves the others to a task that goes on in the same way.
-/

namespace WebApp

variable {σ : Type}

namespace Scope

/-- What is noted of the teardown at a place; the oldest has place 0. -/
inductive Mark where
  | started (place : Nat)
  /-- It has panicked as it was started: there is nothing to wait for. -/
  | broke (place : Nat)
  | ended (place : Nat)
deriving DecidableEq

/-- A state with the notes made so far. -/
abbrev Watched (σ : Type) := σ × List Mark

/-- The notes that a step makes. -/
def Mark.ofStep : Step (Watched σ) → List Mark
  | .act _ before after => after.state.2.drop before.state.2.length
  | _ => []

def marks (steps : List (Step (Watched σ))) : List Mark :=
  steps.flatMap Mark.ofStep

@[simp] theorem marks_nil : marks ([] : List (Step (Watched σ))) = [] := rfl

@[simp] theorem marks_append (first second : List (Step (Watched σ))) :
    marks (first ++ second) = marks first ++ marks second :=
  List.flatMap_append

def mark (m : Mark) : Routine (Watched σ) Unit :=
  .act (Act.update fun state => ((), (state.1, state.2 ++ [m]))) .done

/-- Goes on as a part of the program has ended. -/
def resume {α : Type} : Outcome α → Routine (Watched σ) α
  | .finished value => pure value
  | .panicked text => Tasks.panic text

/-- A teardown that notes at its place when it is started and when it is over. -/
def watch (place : Nat) (teardown : Teardown (Routine (Watched σ))) :
    Teardown (Routine (Watched σ)) where
  prepare := do
    mark (.started place)
    match ← Tasks.attempt teardown.prepare with
    | .finished _ => return
    | .panicked text => do
      mark (.broke place)
      Tasks.panic text
  run := do
    let outcome ← Tasks.attempt teardown.run
    mark (.ended place)
    resume outcome

/-- No run of the program makes notes by itself. -/
def Quiet {α : Type} (r : Routine (Watched σ) α) : Prop :=
  ∀ steps outcome, r.Runs steps outcome → marks steps = []

/-- A teardown as it is registered.  Its first part runs at once, where it is released, and cannot
wait. -/
structure Registered (σ : Type) : Type 1 where
  name : String
  teardown : Teardown (Routine (Watched σ))
  prompt : teardown.prepare.Prompt
  quietly : Quiet teardown.prepare ∧ Quiet teardown.run

/-- A scope on which teardowns were pushed, in this order, each watched at its place. -/
def pushEach (teardowns : List (Registered σ)) : Scope (Teardown (Routine (Watched σ))) :=
  teardowns.foldl (fun scope registered =>
    scope.push registered.name (watch scope.size registered.teardown)) {}

/-- The entries of such a scope, from the newest teardown on. -/
def watchedEntries : List (Registered σ) → List (String × Teardown (Routine (Watched σ)))
  | [] => []
  | registered :: older =>
    (registered.name, watch older.length registered.teardown) :: watchedEntries older

theorem length_watchedEntries (teardowns : List (Registered σ)) :
    (watchedEntries teardowns).length = teardowns.length := by
  induction teardowns with
  | nil => rfl
  | cons registered older ih => rw [watchedEntries, List.length_cons, ih, List.length_cons]

theorem entries_pushEach (teardowns : List (Registered σ)) :
    (pushEach teardowns).entries = watchedEntries teardowns.reverse := by
  induction teardowns using List.reverseRecOn with
  | nil => rfl
  | append_singleton teardowns registered ih =>
      have hsize : (pushEach teardowns).size = teardowns.reverse.length := by
        rw [size, ih, length_watchedEntries]
      rw [pushEach, List.foldl_append, List.foldl_cons, List.foldl_nil, ← pushEach, push, ih,
        hsize, List.reverse_concat, watchedEntries]

/-- The last step is no request, but only reads and writes. -/
def ActsLast (steps : List (Step (Watched σ))) : Prop :=
  ∃ init now before after, steps = init ++ [.act now before after]

theorem ActsLast.append {last : List (Step (Watched σ))} (hlast : ActsLast last)
    (first : List (Step (Watched σ))) : ActsLast (first ++ last) := by
  obtain ⟨init, now, before, after, rfl⟩ := hlast
  exact ⟨first ++ init, now, before, after, (List.append_assoc _ _ _).symm⟩

/-! ## The notes of one teardown -/

theorem runs_mark {m : Mark} {steps : List (Step (Watched σ))} {outcome : Outcome Unit}
    (hruns : (mark m).Runs steps outcome) :
    marks steps = [m] ∧ outcome = .finished () ∧ ActsLast steps := by
  obtain ⟨_, _, _, rfl, ⟨now, before, rfl, -⟩, rfl, rfl⟩ := hruns
  refine ⟨?_, rfl, [], now, before, _, rfl⟩
  change (before.state.2 ++ [m]).drop before.state.2.length ++ [] = [m]
  rw [List.drop_left, List.append_nil]

theorem quiet_report (event : Event) : Quiet (report event : Routine (Watched σ) Unit) := by
  intro steps outcome hruns
  obtain ⟨⟨now, before, rfl⟩, -⟩ := (Routine.runs_report _ _ _).mp hruns
  simp [marks, Mark.ofStep]

theorem actsLast_report {event : Event} {steps : List (Step (Watched σ))} {outcome : Outcome Unit}
    (hruns : (report event : Routine (Watched σ) Unit).Runs steps outcome) : ActsLast steps := by
  obtain ⟨⟨now, before, rfl⟩, -⟩ := (Routine.runs_report _ _ _).mp hruns
  exact ⟨[], now, before, _, rfl⟩

theorem prompt_mark (m : Mark) : (mark m : Routine (Watched σ) Unit).Prompt :=
  Routine.prompt_act _

theorem finishes_mark (m : Mark) : (mark m : Routine (Watched σ) Unit).Finishes := by
  intro steps outcome hruns
  exact ⟨(), (runs_mark hruns).2.1⟩

theorem runs_resume {α : Type} {ended : Outcome α} {steps : List (Step (Watched σ))}
    {outcome : Outcome α} (hruns : (resume ended : Routine (Watched σ) α).Runs steps outcome) :
    steps = [] ∧ outcome = ended := by
  cases ended <;> exact hruns

theorem prompt_resume {α : Type} (ended : Outcome α) :
    (resume ended : Routine (Watched σ) α).Prompt := by
  cases ended with
  | finished value => exact Routine.prompt_pure value
  | panicked text => exact Routine.prompt_panic text

section Teardown

variable (place : Nat) {teardown : Teardown (Routine (Watched σ))} {steps : List (Step (Watched σ))}

/-- A teardown is started, and may break there. -/
theorem marks_prepare (hquiet : Quiet teardown.prepare) {outcome : Outcome Unit}
    (hruns : (watch place teardown).prepare.Runs steps outcome) :
    (outcome = .finished () ∧ marks steps = [.started place]) ∨
      ((∃ text, outcome = .panicked text) ∧ marks steps = [.started place, .broke place] ∧
        ActsLast steps) := by
  unfold watch at hruns
  obtain ⟨_, first, rest, rfl, hstarted, hrest⟩ := (finishes_mark _).of_bind hruns
  obtain ⟨hfirst, -⟩ := runs_mark hstarted
  obtain ⟨ended, middle, last, rfl, hprepare, hlast⟩ :=
    (Routine.runs_guarded_bind _ _ _ _ _).mp hrest
  have hmiddle : marks middle = [] := hquiet _ _ hprepare
  cases ended with
  | finished value =>
      obtain ⟨rfl, rfl⟩ := hlast
      exact .inl ⟨rfl, by simp [hfirst, hmiddle]⟩
  | panicked text =>
      obtain ⟨_, broken, nothing, rfl, hbroken, rfl, rfl⟩ := (finishes_mark _).of_bind hlast
      obtain ⟨hmarks, -, hacts⟩ := runs_mark hbroken
      rw [List.append_nil]
      exact .inr ⟨⟨text, rfl⟩, by simp [hfirst, hmiddle, hmarks],
        (hacts.append middle).append first⟩

theorem prompt_prepare (hprompt : teardown.prepare.Prompt) :
    (watch place teardown).prepare.Prompt := by
  apply (prompt_mark _).bind
  intro _
  apply hprompt.attempt.bind
  intro ended
  cases ended with
  | finished value => exact Routine.prompt_pure ()
  | panicked text => exact (prompt_mark _).bind fun _ => Routine.prompt_panic text

/-- A teardown that was started comes to its end, however it ends. -/
theorem marks_run (hquiet : Quiet teardown.run) {outcome : Outcome Unit}
    (hruns : (watch place teardown).run.Runs steps outcome) :
    marks steps = [.ended place] ∧ ActsLast steps := by
  unfold watch at hruns
  obtain ⟨ended, first, rest, rfl, hrun, hrest⟩ := (Routine.runs_guarded_bind _ _ _ _ _).mp hruns
  obtain ⟨_, middle, last, rfl, hended, hlast⟩ := (finishes_mark _).of_bind hrest
  obtain ⟨rfl, -⟩ := runs_resume hlast
  obtain ⟨hmarks, -, hacts⟩ := runs_mark hended
  rw [List.append_nil]
  exact ⟨by simp [hquiet _ _ hrun, hmarks], hacts.append first⟩

/-- What a quiet program has done up to a pause makes no notes. -/
theorem Quiet.marks_of_reaches {α : Type} {r : Routine (Watched σ) α} (hquiet : Quiet r)
    {thread : Thread (Watched σ) α} (hreaches : r.Reaches steps thread) : marks steps = [] := by
  apply List.eq_nil_iff_forall_not_mem.mpr
  intro m hm
  obtain ⟨step, hstep, hofStep⟩ := List.mem_flatMap.mp hm
  cases step with
  | act now before after =>
      obtain ⟨rest, outcome, hrest⟩ := thread.exists_runs before
      have hwhole : marks (steps ++ rest) = [] := hquiet _ _ (hreaches.runs hrest)
      rw [marks_append] at hwhole
      rw [(List.append_eq_nil_iff.mp hwhole).1] at hm
      exact List.not_mem_nil hm
  | sleep | spawn | openQueue | enqueue | queued | release => exact List.not_mem_nil hofStep

/-- A teardown that has been started and waits has made no note of its end. -/
theorem marks_reaches_run (hquiet : Quiet teardown.run) {thread : Thread (Watched σ) Unit}
    (hreaches : (Thread.running (watch place teardown).run).Reaches steps thread) :
    marks steps = [] := by
  rcases hreaches with ⟨rfl, -⟩ | hreaches
  · rfl
  unfold watch at hreaches
  rcases hreaches.of_bind with ⟨inner, hinner, -⟩ | ⟨ended, _, last, -, -, hlast⟩
  · obtain ⟨part, hpart, -⟩ := Routine.reaches_guarded hinner
    exact hquiet.marks_of_reaches hpart
  · have hprompt : (mark (.ended place) >>= fun _ => resume ended :
        Routine (Watched σ) Unit).Prompt :=
      (prompt_mark _).bind fun _ => prompt_resume ended
    exact absurd hlast (hprompt _ _)

/-- A release starts its teardown, and the teardown is over when the release is.  One that panics
has broken as it was started. -/
theorem marks_runTeardown (hquietly : Quiet teardown.prepare ∧ Quiet teardown.run) {name : String}
    {outcome : Outcome Unit}
    (hruns : (runTeardown name (watch place teardown)).Runs steps outcome) :
    ((outcome = .finished () ∧ marks steps = [.started place, .ended place]) ∨
      ((∃ text, outcome = .panicked text) ∧ marks steps = [.started place, .broke place])) ∧
    ActsLast steps := by
  unfold runTeardown at hruns
  obtain ⟨_, reported, rest, rfl, hreport, hrest⟩ := (Routine.finishes_report _).of_bind hruns
  have hreported : marks reported = [] := quiet_report _ _ _ hreport
  rw [Routine.runs_bind] at hrest
  rcases hrest with ⟨text, hpanic, rfl⟩ | ⟨_, prepared, more, rfl, hprepare, hmore⟩
  · rcases marks_prepare place hquietly.1 hpanic with ⟨hnever, -⟩ | ⟨-, hmarks, hacts⟩
    · exact absurd hnever (by simp)
    · exact ⟨.inr ⟨⟨text, rfl⟩, by simp [hreported, hmarks]⟩, hacts.append reported⟩
  · have hprepared : marks prepared = [.started place] := by
      rcases marks_prepare place hquietly.1 hprepare with ⟨-, hmarks⟩ | ⟨⟨_, hnever⟩, -⟩
      · exact hmarks
      · exact absurd hnever (by simp)
    obtain ⟨ended, inner, last, rfl, hinner, hlast⟩ :=
      (Routine.runs_await_bind _ _ _ _).mp hmore
    obtain ⟨hended, hacts⟩ := marks_run place hquietly.2 hinner
    have hover : outcome = .finished () ∧ marks last = [] ∧ ActsLast (inner ++ last) := by
      cases ended with
      | finished value =>
          obtain ⟨rfl, rfl⟩ := hlast
          rw [List.append_nil]
          exact ⟨rfl, rfl, hacts⟩
      | panicked text =>
          exact ⟨((Routine.runs_report _ _ _).mp hlast).2, quiet_report _ _ _ hlast,
            (actsLast_report hlast).append inner⟩
    exact ⟨.inl ⟨hover.1, by simp [hreported, hprepared, hended, hover.2.1]⟩,
      (hover.2.2.append prepared).append reported⟩

/-- A release that has finished has waited for its teardown. -/
theorem marks_of_finished (hquietly : Quiet teardown.prepare ∧ Quiet teardown.run) {name : String}
    (hruns : (runTeardown name (watch place teardown)).Runs steps (.finished ())) :
    marks steps = [.started place, .ended place] := by
  rcases (marks_runTeardown place hquietly hruns).1 with ⟨-, hmarks⟩ | ⟨⟨_, hnever⟩, -⟩
  · exact hmarks
  · exact absurd hnever (by simp)

theorem marks_of_panicked (hquietly : Quiet teardown.prepare ∧ Quiet teardown.run)
    {name text : String}
    (hruns : (runTeardown name (watch place teardown)).Runs steps (.panicked text)) :
    marks steps = [.started place, .broke place] := by
  rcases (marks_runTeardown place hquietly hruns).1 with ⟨hnever, -⟩ | ⟨-, hmarks⟩
  · exact absurd hnever (by simp)
  · exact hmarks

/-- A release that is given up has started its teardown, whose task goes on by itself unless it has
ended before. -/
theorem quits_runTeardown (hprompt : teardown.prepare.Prompt)
    (hquietly : Quiet teardown.prepare ∧ Quiet teardown.run) {name : String}
    {thread : Thread (Watched σ) Unit} {orphan : Option (Strand (Watched σ))}
    {quitting : List (Step (Watched σ))}
    (hreaches : (runTeardown name (watch place teardown)).Reaches steps thread)
    (hquits : thread.Quits orphan quitting) :
    quitting = [] ∧
      ((orphan = none ∧ marks steps = [.started place, .ended place]) ∨
        ∃ strand, orphan = some strand ∧ marks steps = [.started place] ∧
          ∀ later ended, strand.thread.Runs later ended → marks later = [.ended place]) := by
  unfold runTeardown at hreaches
  obtain ⟨_, reported, rest, rfl, hreport, hrest⟩ :=
    (Routine.prompt_report _).reaches_bind hreaches
  have hreported : marks reported = [] := quiet_report _ _ _ hreport
  obtain ⟨_, prepared, more, rfl, hprepare, hmore⟩ :=
    (prompt_prepare place hprompt).reaches_bind hrest
  have hprepared : marks prepared = [.started place] := by
    rcases marks_prepare place hquietly.1 hprepare with ⟨-, hmarks⟩ | ⟨⟨_, hnever⟩, -⟩
    · exact hmarks
    · exact absurd hnever (by simp)
  rcases hmore.of_bind with ⟨waiting, hwaiting, rfl⟩ | ⟨ended, _, last, -, -, hlast⟩
  · rw [Thread.quits_bind] at hquits
    rcases Routine.reaches_await hwaiting with ⟨inner, hinner, rfl⟩ | ⟨ended, hrun, rfl⟩
    · obtain ⟨rfl, rfl⟩ := hquits
      have hmarks : marks more = [] := marks_reaches_run place hquietly.2 hinner
      refine ⟨rfl, .inr ⟨⟨inner⟩, rfl, by simp [hreported, hprepared, hmarks], ?_⟩⟩
      intro later ended hlater
      have hwhole := (marks_run place hquietly.2 (hinner.runs hlater)).1
      rw [marks_append, hmarks, List.nil_append] at hwhole
      exact hwhole
    · obtain ⟨rfl, rfl⟩ := hquits
      exact ⟨rfl, .inl ⟨rfl, by simp [hreported, hprepared, (marks_run place hquietly.2 hrun).1]⟩⟩
  · cases ended with
    | finished value => exact hlast.elim
    | panicked text => exact absurd hlast (Routine.prompt_report _ _ _)

end Teardown

/-! ## The notes of a scope -/

/-- Teardowns are started one after another from the newest on, each when the one before is over, up
to one that breaks: these are the notes, and so many are left. -/
inductive Falls : Nat → List Mark → Nat → Prop where
  | all : Falls 0 [] 0
  | next {count left : Nat} {notes : List Mark} :
      Falls count notes left → Falls (count + 1) (.started count :: .ended count :: notes) left
  | broke (count : Nat) : Falls (count + 1) [.started count, .broke count] count

/-- A scope has come to its end: these are the notes made so far, this one is still to come from the
teardown that goes on by itself, and so many teardowns are left to the heir. -/
inductive Stops : Nat → List Mark → List Mark → Nat → Prop where
  | here (count : Nat) : Stops count [] [] count
  | next {count left : Nat} {notes due : List Mark} :
      Stops count notes due left →
      Stops (count + 1) (.started count :: .ended count :: notes) due left
  | broke (count : Nat) : Stops (count + 1) [.started count, .broke count] [] count
  | detached (count : Nat) : Stops (count + 1) [.started count] [.ended count] count

theorem Falls.stops {count left : Nat} {notes : List Mark} (hfalls : Falls count notes left) :
    Stops count notes [] left := by
  induction hfalls with
  | all => exact .here 0
  | next _ ih => exact .next ih
  | broke count => exact .broke count

/-- The task that releases the teardowns that are left, if there are any. -/
def heir? : List (Registered σ) → Option (Routine (Watched σ) Unit)
  | [] => none
  | registered :: older => some (runEach id (watchedEntries (registered :: older)))

theorem ActsLast.handed_eq {steps : List (Step (Watched σ))} (hacts : ActsLast steps) :
    handed? steps = none := by
  obtain ⟨init, now, before, after, rfl⟩ := hacts
  rw [handed?, List.getLast?_concat]

/-- Behind a part that has begun no task last of all, what counts is what follows. -/
theorem handed_append {first : List (Step (Watched σ))} (hacts : ActsLast first)
    (last : List (Step (Watched σ))) : handed? (first ++ last) = handed? last := by
  cases last using List.reverseRecOn with
  | nil =>
      rw [List.append_nil, hacts.handed_eq]
      rfl
  | append_singleton last step =>
      rw [← List.append_assoc, handed?, handed?, List.getLast?_concat, List.getLast?_concat]

theorem falls_of_releases (teardowns : List (Registered σ)) {releases : List (Release (Watched σ))}
    {outcome : Outcome Unit}
    (hreleases : Releases id (watchedEntries teardowns) releases outcome) :
    ∃ left, Falls teardowns.length (marks (releases.flatMap Release.steps)) left := by
  induction teardowns generalizing releases with
  | nil =>
      cases hreleases
      exact ⟨0, .all⟩
  | cons registered older ih =>
      rw [watchedEntries] at hreleases
      cases hreleases with
      | cons _ _ release _ hteardown hfinished hlater =>
          obtain ⟨left, hfalls⟩ := ih hlater
          have hruns := release.runs
          rw [hteardown, hfinished, id] at hruns
          refine ⟨left, ?_⟩
          rw [List.flatMap_cons, marks_append, marks_of_finished _ registered.quietly hruns]
          exact .next hfalls
      | panic _ _ release _ hteardown hpanicked =>
          have hruns := release.runs
          rw [hteardown, hpanicked, id] at hruns
          refine ⟨older.length, ?_⟩
          rw [List.flatMap_singleton, marks_of_panicked _ registered.quietly hruns]
          exact .broke older.length

/-- What is left is handed to its heir, and no notes are made of this. -/
theorem handed_of_drop (teardowns : List (Registered σ)) {steps : List (Step (Watched σ))}
    {outcome : Outcome Unit}
    (hruns : (dropEntries id (watchedEntries teardowns)).Runs steps outcome) :
    outcome = .finished () ∧ marks steps = [] ∧ handed? steps = heir? teardowns := by
  cases teardowns with
  | nil =>
      obtain ⟨rfl, rfl⟩ := hruns
      exact ⟨rfl, rfl, rfl⟩
  | cons registered older =>
      have hdrop : dropEntries id (watchedEntries (registered :: older)) =
          (report ⟨.warn, "teardown scope dropped before close",
            [("pending", toString (watchedEntries (registered :: older)).length)]⟩ >>= fun _ =>
              Tasks.spawn (runEach id (watchedEntries (registered :: older))) :
            Routine (Watched σ) Unit) := rfl
      rw [hdrop] at hruns
      obtain ⟨_, reported, last, rfl, hreport, ⟨_, _, _, rfl, rfl, rfl, rfl⟩⟩ :=
        (Routine.finishes_report _).of_bind hruns
      refine ⟨rfl, ?_, ?_⟩
      · rw [marks_append, quiet_report _ _ _ hreport]
        rfl
      · rw [List.append_nil, handed?, List.getLast?_concat]
        rfl

theorem prompt_drop (teardowns : List (Registered σ)) :
    (dropEntries id (watchedEntries teardowns) : Routine (Watched σ) Unit).Prompt := by
  cases teardowns with
  | nil => exact Routine.prompt_pure ()
  | cons registered older =>
      exact (Routine.prompt_report _).bind fun _ => Routine.prompt_spawn _

theorem stops_of_closes (teardowns : List (Registered σ)) {releases : List (Release (Watched σ))}
    {handed : List (Step (Watched σ))} {outcome : Outcome Unit}
    (hcloses : Closes id (watchedEntries teardowns) releases handed outcome) :
    ∃ older : List (Registered σ),
      handed? (releases.flatMap Release.steps ++ handed) = heir? older ∧
      Stops teardowns.length (marks (releases.flatMap Release.steps ++ handed)) []
        older.length := by
  induction teardowns generalizing releases with
  | nil =>
      cases hcloses
      exact ⟨[], rfl, .here 0⟩
  | cons registered older ih =>
      rw [watchedEntries] at hcloses
      cases hcloses with
      | cons _ _ release _ hteardown hfinished hlater =>
          obtain ⟨left, hheir, hstops⟩ := ih hlater
          have hruns := release.runs
          rw [hteardown, hfinished, id] at hruns
          refine ⟨left, ?_, ?_⟩
          · rw [← hheir, List.flatMap_cons, List.append_assoc]
            exact handed_append (marks_runTeardown _ registered.quietly hruns).2 _
          · rw [List.flatMap_cons, List.append_assoc, marks_append,
              marks_of_finished _ registered.quietly hruns]
            exact .next hstops
      | panic _ _ release _ hteardown hpanicked hdrop =>
          have hruns := release.runs
          rw [hteardown, hpanicked, id] at hruns
          obtain ⟨-, hquiet, hheir⟩ := handed_of_drop older hdrop
          refine ⟨older, ?_, ?_⟩
          · rw [← hheir, List.flatMap_singleton]
            exact handed_append (marks_runTeardown _ registered.quietly hruns).2 handed
          · rw [List.flatMap_singleton, marks_append, hquiet, List.append_nil,
              marks_of_panicked _ registered.quietly hruns]
            exact .broke older.length

/-- A scope that is closed releases all its teardowns, or up to one that breaks, and what is left
has an heir. -/
theorem stops_of_close (teardowns : List (Registered σ)) {steps : List (Step (Watched σ))}
    {outcome : Outcome Unit}
    (hruns : (closeEntries id (watchedEntries teardowns)).Runs steps outcome) :
    ∃ older : List (Registered σ), handed? steps = heir? older ∧
      Stops teardowns.length (marks steps) [] older.length := by
  obtain ⟨releases, handed, rfl, hcloses⟩ := closeEntries_closes id _ hruns
  exact stops_of_closes teardowns hcloses

/-- A scope that is given up while it is closed hands what is left to its heir, and the teardown
that is running goes on by itself. -/
theorem stops_of_quits (teardowns : List (Registered σ)) {steps : List (Step (Watched σ))}
    {thread : Thread (Watched σ) Unit} {orphan : Option (Strand (Watched σ))}
    {quitting : List (Step (Watched σ))}
    (hreaches : (closeEntries id (watchedEntries teardowns)).Reaches steps thread)
    (hquits : thread.Quits orphan quitting) :
    ∃ (older : List (Registered σ)) (due : List Mark), handed? quitting = heir? older ∧
      Stops teardowns.length (marks (steps ++ quitting)) due older.length ∧
      ((orphan = none ∧ due = []) ∨ ∃ strand, orphan = some strand ∧
        ∀ later ended, strand.thread.Runs later ended → marks later = due) := by
  induction teardowns generalizing steps with
  | nil => exact hreaches.elim
  | cons registered older ih =>
      rw [watchedEntries, closeEntries] at hreaches
      rcases hreaches.of_bind with ⟨inner, hinner, rfl⟩ | ⟨ended, first, last, rfl, hfirst, hlast⟩
      · obtain ⟨part, hpart, rfl⟩ := Routine.reaches_guarded hinner
        rw [Thread.quits_bind] at hquits
        obtain ⟨mine, dropping, rfl, hmine, hdropping⟩ := hquits
        obtain ⟨rfl, hrunning⟩ :=
          quits_runTeardown older.length registered.prompt registered.quietly hpart hmine
        have hdropped : ∃ ended, (dropEntries id (watchedEntries older)).Runs dropping ended := by
          rcases hdropping with hruns | ⟨thread, hpauses⟩
          · exact hruns
          · exact absurd hpauses (prompt_drop older _ _)
        obtain ⟨_, hdropped⟩ := hdropped
        obtain ⟨-, hquiet, hheir⟩ := handed_of_drop older hdropped
        rcases hrunning with ⟨rfl, hmarks⟩ | ⟨strand, rfl, hmarks, hlater⟩
        · refine ⟨older, [], hheir, ?_, .inl ⟨rfl, rfl⟩⟩
          rw [List.nil_append, marks_append, hmarks, hquiet, List.append_nil]
          exact .next (.here older.length)
        · refine ⟨older, [.ended older.length], hheir, ?_, .inr ⟨strand, rfl, hlater⟩⟩
          rw [List.nil_append, marks_append, hmarks, hquiet, List.append_nil]
          exact .detached older.length
      · obtain ⟨_, hrelease, hsame⟩ := (Routine.runs_guarded _ _ _ _).mp hfirst
        rw [Outcome.finished.injEq] at hsame
        subst hsame
        cases ended with
        | panicked text =>
            have hprompt : (dropEntries id (watchedEntries older) >>= fun _ => Tasks.panic text :
                Routine (Watched σ) Unit).Prompt :=
              (prompt_drop older).bind fun _ => Routine.prompt_panic text
            exact absurd hlast (hprompt _ _)
        | finished value =>
            obtain ⟨left, due, hheir, hstops, horphan⟩ := ih hlast
            have hmarks := marks_of_finished _ registered.quietly hrelease
            refine ⟨left, due, hheir, ?_, horphan⟩
            rw [List.append_assoc, marks_append, hmarks]
            exact .next hstops

end Scope
end WebApp
