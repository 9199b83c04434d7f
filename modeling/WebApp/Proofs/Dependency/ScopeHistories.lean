import Mathlib.Tactic
import WebApp.Proofs.Dependency.WatchedTeardowns

/-!
# Histories of a scope

A scope is closed, dropped, or given up while it is being closed.  What it has not released then
goes to an heir, a task that nobody waits for; a teardown that was running when the scope was given
up goes on by itself.  In every history the newest teardowns are started, newest first and each at
most once.  Two things break the rest.  A teardown that panics as it is started ends the heir, and
what is older is never started.  And the heir does not wait for the teardown that goes on by itself.
-/

namespace WebApp

universe u

variable {σ : Type}

namespace Scope

/-! ## Whole histories -/

/-- The steps of two tasks in the order in which they happened. -/
inductive Interleaves {α : Type u} : List α → List α → List α → Prop where
  | nil : Interleaves [] [] []
  | left {first second whole : List α} (x : α) :
      Interleaves first second whole → Interleaves (x :: first) second (x :: whole)
  | right {first second whole : List α} (x : α) :
      Interleaves first second whole → Interleaves first (x :: second) (x :: whole)

namespace Interleaves

variable {α β : Type u} {first second whole : List α}

theorem perm (hinterleaves : Interleaves first second whole) :
    whole.Perm (first ++ second) := by
  induction hinterleaves with
  | nil => exact .refl _
  | left x _ ih => exact ih.cons x
  | right x _ ih => exact (ih.cons x).trans List.perm_middle.symm

theorem none_left (second : List α) : Interleaves [] second second := by
  induction second with
  | nil => exact .nil
  | cons x rest ih => exact .right x ih

theorem eq_of_none (hinterleaves : Interleaves first [] whole) : whole = first := by
  generalize hsecond : ([] : List α) = second at hinterleaves
  induction hinterleaves with
  | nil => rfl
  | left x _ ih => rw [ih hsecond]
  | right => exact absurd hsecond (by simp)

theorem eq_of_one {y : α} (hinterleaves : Interleaves first [y] whole) :
    ∃ before behind, first = before ++ behind ∧ whole = before ++ y :: behind := by
  generalize hsecond : [y] = second at hinterleaves
  induction hinterleaves with
  | nil => exact absurd hsecond (by simp)
  | left x _ ih =>
      obtain ⟨before, behind, rfl, rfl⟩ := ih hsecond
      exact ⟨x :: before, behind, rfl, rfl⟩
  | @right first _ whole x hrest _ =>
      obtain ⟨rfl, rfl⟩ := List.cons.inj hsecond
      exact ⟨[], first, rfl, by rw [hrest.eq_of_none]; rfl⟩

theorem append_left (front : List α) (hinterleaves : Interleaves first second whole) :
    Interleaves (front ++ first) second (front ++ whole) := by
  induction front with
  | nil => exact hinterleaves
  | cons x rest ih => exact .left x ih

theorem append_right (front : List α) (hinterleaves : Interleaves first second whole) :
    Interleaves first (front ++ second) (front ++ whole) := by
  induction front with
  | nil => exact hinterleaves
  | cons x rest ih => exact .right x ih

end Interleaves

/-- The ways of a scope: its own steps, the heir of what it has not released, and the strand of the
teardown that it has not waited for. -/
inductive Goes (scope : Scope (Teardown (Routine (Watched σ)))) :
    List (Step (Watched σ)) → Option (Routine (Watched σ) Unit) → Option (Strand (Watched σ)) →
    Prop where
  | closed {steps : List (Step (Watched σ))} {outcome : Outcome Unit} :
      (scope.close id).Runs steps outcome → Goes scope steps (handed? steps) none
  | dropped {steps : List (Step (Watched σ))} {outcome : Outcome Unit} :
      (scope.drop id).Runs steps outcome → Goes scope steps (handed? steps) none
  | givenUp {steps quitting : List (Step (Watched σ))} {thread : Thread (Watched σ) Unit}
      {orphan : Option (Strand (Watched σ))} :
      (scope.close id).Reaches steps thread → thread.Quits orphan quitting →
      Goes scope (steps ++ quitting) (handed? quitting) orphan

/-- A history of a scope, up to the end of all that it has begun. -/
structure Course (scope : Scope (Teardown (Routine (Watched σ)))) : Type 1 where
  steps : List (Step (Watched σ))
  heir : Option (Routine (Watched σ) Unit)
  orphan : Option (Strand (Watched σ))
  goes : Goes scope steps heir orphan
  inherited : List (Step (Watched σ))
  inherits : Inherits heir inherited
  detached : List (Step (Watched σ))
  goesOn : GoesOn orphan detached
  later : List (Step (Watched σ))
  interleaves : Interleaves inherited detached later

/-- Whatever way a scope has gone, what it has begun comes to an end. -/
theorem Goes.exists_course {scope : Scope (Teardown (Routine (Watched σ)))}
    {steps : List (Step (Watched σ))} {heir : Option (Routine (Watched σ) Unit)}
    {orphan : Option (Strand (Watched σ))} (hgoes : Goes scope steps heir orphan)
    (journal : Journal (Watched σ)) :
    ∃ course : Course scope, course.heir = heir ∧ course.orphan = orphan := by
  have hinherits : ∃ inherited, Inherits heir inherited := by
    cases heir with
    | none => exact ⟨[], rfl⟩
    | some task => exact Routine.exists_runs journal task
  have hgoesOn : ∃ detached, GoesOn orphan detached := by
    cases orphan with
    | none => exact ⟨[], rfl⟩
    | some strand => exact strand.thread.exists_runs journal
  obtain ⟨inherited, hinherits⟩ := hinherits
  obtain ⟨detached, hgoesOn⟩ := hgoesOn
  have hinterleaves : Interleaves inherited detached (inherited ++ detached) := by
    have happend := (Interleaves.none_left detached).append_left inherited
    rwa [List.append_nil] at happend
  exact ⟨⟨steps, heir, orphan, hgoes, inherited, hinherits, detached, hgoesOn, _, hinterleaves⟩,
    rfl, rfl⟩

namespace Course

variable {scope : Scope (Teardown (Routine (Watched σ)))}

/-- All notes of a history, in the order in which they were made. -/
def story (course : Course scope) : List Mark :=
  marks (course.steps ++ course.later)

end Course

/-- A teardown is over: it has ended, or has broken as it was started. -/
def Over (place : Nat) (notes : List Mark) : Prop :=
  .ended place ∈ notes ∨ .broke place ∈ notes

/-- Each of so many teardowns is started exactly once, and none before every newer one is over. -/
structure Orderly (count : Nat) (notes : List Mark) : Prop where
  once : ∀ place < count, notes.count (.started place) = 1
  after : ∀ older newer, older < newer → newer < count → ∀ before behind,
    notes = before ++ .started older :: behind → Over newer before

/-- The places at which teardowns are started. -/
def starts (notes : List Mark) : List Nat :=
  notes.filterMap fun
    | .started place => some place
    | _ => none

/-! ## Notes in order -/

/-- What the steps of two tasks note is interleaved as the steps are. -/
theorem Interleaves.marks {first second whole : List (Step (Watched σ))}
    (hinterleaves : Interleaves first second whole) :
    Interleaves (marks first) (marks second) (marks whole) := by
  induction hinterleaves with
  | nil => exact .nil
  | left step _ ih => exact ih.append_left (Mark.ofStep step)
  | right step _ ih => exact ih.append_right (Mark.ofStep step)

/-- From one count down to another each teardown is started, and is over before the next one. -/
inductive Linear : Nat → Nat → List Mark → Prop where
  | here (count : Nat) : Linear count count []
  | next {count left : Nat} {notes : List Mark} (last : Mark) :
      last = .ended count ∨ last = .broke count → Linear count left notes →
      Linear (count + 1) left (.started count :: last :: notes)

namespace Linear

variable {count middle left : Nat} {notes first second : List Mark}

theorem append (hfirst : Linear count middle first) (hsecond : Linear middle left second) :
    Linear count left (first ++ second) := by
  induction hfirst with
  | here => exact hsecond
  | next last hlast _ ih => exact .next last hlast (ih hsecond)

theorem left_le (hlinear : Linear count left notes) : left ≤ count := by
  induction hlinear with
  | here => exact le_rfl
  | next _ _ _ ih => exact Nat.le_succ_of_le ih

theorem count_started (hlinear : Linear count left notes) (place : Nat) :
    notes.count (.started place) = if left ≤ place ∧ place < count then 1 else 0 := by
  induction hlinear with
  | here count =>
      rw [List.count_nil, if_neg]
      omega
  | @next count left notes last hlast hlater ih =>
      have hle := hlater.left_le
      have hother : (last == .started place) = false := by
        rcases hlast with rfl | rfl <;> simp
      rw [List.count_cons, List.count_cons, ih, hother]
      simp only [beq_iff_eq, Mark.started.injEq, Bool.false_eq_true, if_false, add_zero]
      split <;> split <;> split <;> omega

/-- The places of all notes. -/
theorem mem_bounds (hlinear : Linear count left notes) {place : Nat}
    (hmem : .started place ∈ notes ∨ Over place notes) : left ≤ place ∧ place < count := by
  induction hlinear with
  | here => simp [Over] at hmem
  | @next count left notes last hlast hlater ih =>
      have hle := hlater.left_le
      by_cases hplace : place = count
      · omega
      · have hrest : .started place ∈ notes ∨ Over place notes := by
          rcases hlast with rfl | rfl <;> simpa [Over, hplace] using hmem
        have hbounds := ih hrest
        omega

theorem starts_eq (hlinear : Linear count left notes) :
    starts notes = (List.range' left (count - left)).reverse := by
  induction hlinear with
  | here count => simp [starts]
  | @next count left notes last hlast hlater ih =>
      have hle := hlater.left_le
      have hsucc : count + 1 - left = (count - left) + 1 := by omega
      have hcount : left + (count - left) = count := by omega
      have hstarts : starts (.started count :: last :: notes) = count :: starts notes := by
        rcases hlast with rfl | rfl <;> rfl
      rw [hsucc, List.range'_1_concat, List.reverse_concat, hcount, ← ih, hstarts]

/-- Nothing starts before all that is newer is over. -/
theorem over_of_started (hlinear : Linear count left notes) {older newer : Nat}
    (hnewer : older < newer) (hcount : newer < count) {before behind : List Mark}
    (hnotes : notes = before ++ .started older :: behind) : Over newer before := by
  induction hlinear generalizing before with
  | here => simp at hnotes
  | @next count left notes last hlast hlater ih =>
      -- What is started is older, so both notes of the newest teardown stand before it.
      rcases before with _ | ⟨first, _ | ⟨second, rest⟩⟩
      · simp only [List.nil_append, List.cons.injEq, Mark.started.injEq] at hnotes
        omega
      · rcases hlast with rfl | rfl <;> simp at hnotes
      · simp only [List.cons_append, List.cons.injEq] at hnotes
        obtain ⟨rfl, rfl, hrest⟩ := hnotes
        by_cases hplace : newer = count
        · rw [hplace]
          exact hlast.imp (by rintro rfl; simp) (by rintro rfl; simp)
        · have hover := ih (by omega) hrest
          exact hover.imp (by simp +contextual) (by simp +contextual)

theorem orderly (hlinear : Linear count 0 notes) : Orderly count notes where
  once := by
    intro place hplace
    rw [hlinear.count_started, if_pos ⟨Nat.zero_le _, hplace⟩]
  after := by
    intro older newer hnewer hcount before behind hnotes
    exact hlinear.over_of_started hnewer hcount hnotes

/-- Where there are notes, the first one tells that a teardown is started. -/
theorem head_eq (hlinear : Linear count left notes) {m : Mark} {rest : List Mark}
    (hnotes : notes = m :: rest) : ∃ place, m = .started place := by
  cases hlinear with
  | here => simp at hnotes
  | next => exact ⟨_, (List.cons.inj hnotes).1.symm⟩

end Linear

theorem Falls.linear {count left : Nat} {notes : List Mark} (hfalls : Falls count notes left) :
    Linear count left notes := by
  induction hfalls with
  | all => exact .here 0
  | @next count left notes _ ih => exact .next _ (.inl rfl) ih
  | broke count => exact .next _ (.inr rfl) (.here count)

/-- A teardown that breaks is the last one that the heir starts. -/
theorem Falls.eq_of_broke {count left place : Nat} {notes : List Mark}
    (hfalls : Falls count notes left) (hbroke : .broke place ∈ notes) : place = left := by
  induction hfalls with
  | all => simp at hbroke
  | next _ ih => exact ih (by simpa using hbroke)
  | broke count => simpa using hbroke

theorem Falls.broke_of_left {count left : Nat} {notes : List Mark}
    (hfalls : Falls count notes left) (hleft : left ≠ 0) : .broke left ∈ notes := by
  induction hfalls with
  | all => exact absurd rfl hleft
  | next _ ih => simp [ih hleft]
  | broke count => simp

theorem Stops.linear {count left : Nat} {notes due : List Mark}
    (hstops : Stops count notes due left) : Linear count left (notes ++ due) := by
  induction hstops with
  | here count => exact .here count
  | next _ ih => exact .next _ (.inl rfl) ih
  | broke count => exact .next _ (.inr rfl) (.here count)
  | detached count => exact .next _ (.inl rfl) (.here count)

/-- What is still to come is at most the end of the last teardown that was started. -/
theorem Stops.due_cases {count left : Nat} {notes due : List Mark}
    (hstops : Stops count notes due left) :
    due = [] ∨ due = [.ended left] ∧ left < count ∧ ¬ Over left notes := by
  induction hstops with
  | here | broke => exact .inl rfl
  | @next count left notes due hlater ih =>
      rcases ih with hnone | ⟨hdue, hlt, hover⟩
      · exact .inl hnone
      · refine .inr ⟨hdue, Nat.lt_succ_of_lt hlt, ?_⟩
        have hne : left ≠ count := Nat.ne_of_lt hlt
        simpa [Over, hne] using hover
  | detached count => exact .inr ⟨rfl, Nat.lt_succ_self count, by simp [Over]⟩

section Parts

variable {count left last : Nat} {notes due inherited later : List Mark}

/-- So many teardowns have not been started at last. -/
theorem starts_eq_of_parts (hstops : Stops count notes due left)
    (hfalls : Falls left inherited last) (hlater : Interleaves inherited due later) :
    starts (notes ++ later) = (List.range' last (count - last)).reverse := by
  have hwhole := (hstops.linear.append hfalls.linear).starts_eq
  rw [← hwhole]
  rcases hstops.due_cases with rfl | ⟨rfl, -, -⟩
  · rw [hlater.eq_of_none, List.append_nil]
  · obtain ⟨before, behind, rfl, rfl⟩ := hlater.eq_of_one
    simp [starts]

theorem starts_newest (hstops : Stops count notes due left) (hfalls : Falls left inherited last)
    (hlater : Interleaves inherited due later) :
    starts (notes ++ later) <+: (List.range count).reverse := by
  have hle : last ≤ count := (hstops.linear.append hfalls.linear).left_le
  have hrange : List.range count = List.range' 0 last ++ List.range' last (count - last) := by
    have happend := List.range'_append_1 (s := 0) (m := last) (n := count - last)
    rw [Nat.zero_add, Nat.add_sub_cancel' hle] at happend
    rw [List.range_eq_range', happend]
  rw [starts_eq_of_parts hstops hfalls hlater, hrange, List.reverse_append]
  exact List.prefix_append _ _

theorem count_started_of_parts (hstops : Stops count notes due left)
    (hfalls : Falls left inherited last) (hlater : Interleaves inherited due later) (place : Nat) :
    (notes ++ later).count (.started place) = if last ≤ place ∧ place < count then 1 else 0 := by
  have hperm : (notes ++ later).Perm (notes ++ due ++ inherited) := by
    rw [List.append_assoc]
    exact (hlater.perm.trans List.perm_append_comm).append_left notes
  rw [hperm.count_eq]
  exact (hstops.linear.append hfalls.linear).count_started place

/-- If nothing is left at last, and what goes on by itself ends first, all is in order. -/
theorem orderly_of_parts (hstops : Stops count notes due left) (hfalls : Falls left inherited 0)
    (hlater : Interleaves inherited due later)
    (hfirst : ∀ place, .ended place ∈ due → ∀ before behind other,
      later = before ++ .started other :: behind → .ended place ∈ before) :
    Orderly count (notes ++ later) := by
  have hlinear := (hstops.linear.append hfalls.linear).orderly
  rw [List.append_assoc] at hlinear
  rcases hstops.due_cases with rfl | ⟨rfl, -, -⟩
  · rw [hlater.eq_of_none]
    exact hlinear
  · obtain ⟨before, behind, rfl, rfl⟩ := hlater.eq_of_one
    cases before with
    | nil => exact hlinear
    | cons m rest =>
        obtain ⟨place, rfl⟩ := hfalls.linear.head_eq rfl
        have hnever := hfirst left (by simp) [] (rest ++ .ended left :: behind) place rfl
        exact absurd hnever List.not_mem_nil

theorem last_eq_zero_of_orderly (hstops : Stops count notes due left)
    (hfalls : Falls left inherited last) (hlater : Interleaves inherited due later)
    (horderly : Orderly count (notes ++ later)) : last = 0 := by
  by_contra hlast
  have hle : last ≤ count := (hstops.linear.append hfalls.linear).left_le
  have honce := horderly.once 0 (by omega)
  rw [count_started_of_parts hstops hfalls hlater, if_neg (by omega)] at honce
  exact absurd honce (by simp)

theorem ended_of_orderly (hstops : Stops count notes due left) (hfalls : Falls left inherited last)
    (hlater : Interleaves inherited due later) (horderly : Orderly count (notes ++ later))
    {place other : Nat} {before behind : List Mark} (hdue : .ended place ∈ due)
    (hstarted : later = before ++ .started other :: behind) : .ended place ∈ before := by
  rcases hstops.due_cases with rfl | ⟨rfl, hlt, hnotes⟩
  · exact absurd hdue List.not_mem_nil
  have hplace : place = left := by simpa using hdue
  subst hplace
  have hmem : ∀ m : Mark, m ∈ later ↔ m ∈ inherited ∨ m = .ended place := by
    intro m
    rw [hlater.perm.mem_iff, List.mem_append, List.mem_singleton]
  have hother : other < place := by
    have hin : .started other ∈ inherited ∨ Mark.started other = .ended place := by
      rw [← hmem, hstarted]
      simp
    exact (hfalls.linear.mem_bounds (.inl (hin.resolve_right (by simp)))).2
  have hover : Over place (notes ++ before) := by
    apply horderly.after other place hother hlt (notes ++ before) behind
    rw [hstarted, List.append_assoc]
  have hbroke : .broke place ∉ before := by
    intro hbroke
    have hin : .broke place ∈ inherited ∨ Mark.broke place = .ended place := by
      rw [← hmem, hstarted]
      exact List.mem_append_left _ hbroke
    have hbounds := hfalls.linear.mem_bounds (.inr (.inr (hin.resolve_right (by simp))))
    omega
  simp only [Over, List.mem_append] at hover hnotes
  tauto

end Parts

/-! ## The property -/

/-- What each part of a history notes. -/
structure Course.Notes {scope : Scope (Teardown (Routine (Watched σ)))} (course : Course scope)
    (count left last : Nat) : Prop where
  stops : Stops count (marks course.steps) (marks course.detached) left
  falls : Falls left (marks course.inherited) last

theorem falls_of_heir (older : List (Registered σ)) {heir : Option (Routine (Watched σ) Unit)}
    {inherited : List (Step (Watched σ))} (hheir : heir = heir? older)
    (hinherits : Inherits heir inherited) :
    ∃ last, Falls older.length (marks inherited) last := by
  subst hheir
  cases older with
  | nil =>
      have hnone : inherited = [] := hinherits
      rw [hnone]
      exact ⟨0, .all⟩
  | cons registered older =>
      obtain ⟨ended, hruns⟩ := hinherits
      obtain ⟨releases, rfl, hreleases⟩ := runEach_releases id _ hruns
      exact falls_of_releases (registered :: older) hreleases

theorem Course.exists_notes (teardowns : List (Registered σ))
    (course : Course (pushEach teardowns)) :
    ∃ left last, course.Notes teardowns.length left last := by
  obtain ⟨steps, heir, orphan, hgoes, inherited, hinherits, detached, hgoesOn, later, -⟩ := course
  have hentries := entries_pushEach teardowns
  have hlength : teardowns.reverse.length = teardowns.length := List.length_reverse
  cases hgoes with
  | closed hruns =>
      rw [close, hentries] at hruns
      obtain ⟨older, hheir, hstops⟩ := stops_of_close _ hruns
      obtain ⟨last, hfalls⟩ := falls_of_heir older hheir hinherits
      have hdetached : detached = [] := hgoesOn
      subst hdetached
      rw [hlength] at hstops
      exact ⟨older.length, last, hstops, hfalls⟩
  | dropped hruns =>
      rw [drop, hentries] at hruns
      obtain ⟨-, hquiet, hheir⟩ := handed_of_drop _ hruns
      obtain ⟨last, hfalls⟩ := falls_of_heir _ hheir hinherits
      have hdetached : detached = [] := hgoesOn
      subst hdetached
      rw [hlength] at hfalls
      refine ⟨teardowns.length, last, ?_, hfalls⟩
      simp only [hquiet, marks_nil]
      exact .here teardowns.length
  | givenUp hreaches hquits =>
      rw [close, hentries] at hreaches
      obtain ⟨older, due, hheir, hstops, horphan⟩ := stops_of_quits _ hreaches hquits
      obtain ⟨last, hfalls⟩ := falls_of_heir older hheir hinherits
      have hdetached : marks detached = due := by
        rcases horphan with ⟨rfl, rfl⟩ | ⟨strand, rfl, hlater⟩
        · have hnone : detached = [] := hgoesOn
          rw [hnone, marks_nil]
        · obtain ⟨ended, hruns⟩ := hgoesOn
          exact hlater detached ended hruns
      rw [hlength, ← hdetached] at hstops
      exact ⟨older.length, last, hstops, hfalls⟩

/-- The teardowns that are started in a history are the newest ones, each once, and the newest
first.  All are started, and none before every newer one is over, exactly when in the heir at most
the oldest teardown breaks as it is started, and the heir starts none before the teardown that goes
on by itself has ended. -/
theorem course_orderly_iff (teardowns : List (Registered σ))
    (course : Course (pushEach teardowns)) :
    starts course.story <+: (List.range teardowns.length).reverse ∧
      (Orderly teardowns.length course.story ↔
        (∀ place, .broke place ∈ marks course.inherited → place = 0) ∧
        ∀ place, .ended place ∈ marks course.detached → ∀ before behind other,
          marks course.later = before ++ .started other :: behind → .ended place ∈ before) := by
  obtain ⟨left, last, hstops, hfalls⟩ := course.exists_notes
  have hlater := course.interleaves.marks
  have hstory : course.story = marks course.steps ++ marks course.later := marks_append _ _
  rw [hstory]
  refine ⟨starts_newest hstops hfalls hlater, ?_, ?_⟩
  · intro horderly
    have hlast := last_eq_zero_of_orderly hstops hfalls hlater horderly
    refine ⟨?_, ?_⟩
    · intro place hbroke
      rw [hfalls.eq_of_broke hbroke, hlast]
    · intro place hdue before behind other hstarted
      exact ended_of_orderly hstops hfalls hlater horderly hdue hstarted
  · rintro ⟨hbroke, hfirst⟩
    have hlast : last = 0 := by
      by_contra hlast
      exact hlast (hbroke last (hfalls.broke_of_left hlast))
    rw [hlast] at hfalls
    exact orderly_of_parts hstops hfalls hlater hfirst

/-! ## A teardown that takes its time, and one that breaks -/

theorem quiet_pure {α : Type} (value : α) : Quiet (pure value : Routine (Watched σ) α) := by
  rintro _ _ ⟨rfl, -⟩
  rfl

def quick : Registered Unit where
  name := "quick"
  teardown := ⟨pure (), pure ()⟩
  prompt := Routine.prompt_pure ()
  quietly := ⟨quiet_pure (), quiet_pure ()⟩

def slow : Registered Unit where
  name := "slow"
  teardown := ⟨pure (), Routine.wait 50⟩
  prompt := Routine.prompt_pure ()
  quietly := by
    refine ⟨quiet_pure (), ?_⟩
    rintro _ _ ⟨_, _, _, rfl, rfl, rfl, -⟩
    rfl

def breaking : Registered Unit where
  name := "breaking"
  teardown := ⟨Tasks.panic "broken", pure ()⟩
  prompt := Routine.prompt_panic "broken"
  quietly := by
    refine ⟨?_, quiet_pure ()⟩
    rintro _ _ ⟨rfl, -⟩
    rfl

/-- The notes that are made when all that was begun has come to its end. -/
def notesAfter {α : Type} (done : Finish α × World (Watched Unit)) : List Mark :=
  done.2.settle.kernel.journal.state.2

def emptyWorld : World (Watched Unit) := World.new ((), [])

/-- A scope that is closed notes all its teardowns in order. -/
example : notesAfter (emptyWorld.run ((pushEach [quick, slow]).close id)) =
    [.started 1, .ended 1, .started 0, .ended 0] := by
  decide +kernel

/-- A history in which the slow teardown goes on by itself. -/
theorem course_orderly_iff_slow :
    ∃ course : Course (pushEach [quick, slow]), course.orphan.isSome ∧
      starts course.story <+: (List.range [quick, slow].length).reverse ∧
      (Orderly [quick, slow].length course.story ↔
        (∀ place, .broke place ∈ marks course.inherited → place = 0) ∧
        ∀ place, .ended place ∈ marks course.detached → ∀ before behind other,
          marks course.later = before ++ .started other :: behind → .ended place ∈ before) := by
  have hpaused : ∃ thread pause k,
      ((pushEach [quick, slow]).close id : Routine (Watched Unit) Unit).advance
        emptyWorld.kernel = (.paused thread pause, k) ∧ (thread.abandon k).1.isSome :=
    ⟨_, _, _, rfl, rfl⟩
  obtain ⟨thread, pause, k, hadvance, horphan⟩ := hpaused
  obtain ⟨steps, -, hreaches⟩ := Routine.advance_stretch true
    ((pushEach [quick, slow]).close id : Routine (Watched Unit) Unit) emptyWorld.kernel
  rw [hadvance] at hreaches
  obtain ⟨quitting, -, hquits⟩ := thread.abandon_quits true k
  obtain ⟨course, -, hsame⟩ :=
    (Goes.givenUp hreaches hquits).exists_course emptyWorld.kernel.journal
  rw [← hsame] at horphan
  exact ⟨course, horphan, course_orderly_iff [quick, slow] course⟩

/-- The close of a scope is given up while the newer of its teardowns waits: its heir starts the
older one at once. -/
theorem notes_of_giving_up :
    ∃ notes, notesAfter (emptyWorld.runFor 10 ((pushEach [quick, slow]).close id)) = notes ∧
      ¬ Orderly 2 notes := by
  refine ⟨[.started 1, .started 0, .ended 0, .ended 1], by decide +kernel, ?_⟩
  intro horderly
  have hover := horderly.after 0 1 (by decide) (by decide) [.started 1] [.ended 0, .ended 1] rfl
  exact absurd hover (by simp [Over])

/-- The newest teardown of a scope that is dropped breaks as it is started: the older one is never
started. -/
theorem notes_of_breaking :
    ∃ notes, notesAfter (emptyWorld.run ((pushEach [quick, breaking]).drop id)) = notes ∧
      ¬ Orderly 2 notes := by
  refine ⟨[.started 1, .broke 1], by decide +kernel, ?_⟩
  intro horderly
  exact absurd (horderly.once 0 (by decide)) (by decide)

end Scope
end WebApp
