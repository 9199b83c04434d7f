import Mathlib.Tactic
import WebApp.Proofs.Task.History

/-!
# What a history does to a queue

A queue takes work until it is released for the first time, whoever adds it.  The release begins
one task, which does that work in order; from then on the queue takes nothing and begins nothing.
-/

namespace WebApp

variable {σ : Type}

/-- What a step does to the work of a queue. -/
def Backlog.after (b : Backlog σ) (queue : Queue) : Step σ → Backlog σ
  | .enqueue other work _ =>
    if other = queue ∧ b.isClosed = false then { b with works := b.works ++ [work] } else b
  | .release other _ => if other = queue then { isClosed := true } else b
  | _ => b

namespace Kernel

theorem backlog_congr {k between : Kernel σ} (hqueues : between.backlogs = k.backlogs)
    (queue : Queue) : between.backlog queue = k.backlog queue := by
  rw [backlog, backlog, hqueues]

theorem backlog_setBacklog (k : Kernel σ) {queue : Queue}
    (hopened : queue.number < k.backlogs.length) (other : Queue) (b : Backlog σ) :
    (k.setBacklog other b).backlog queue = if other = queue then b else k.backlog queue := by
  unfold setBacklog backlog
  dsimp only
  rw [List.getElem?_set]
  by_cases hsame : other = queue
  · subst hsame
    simp [hopened]
  · have hnumber : other.number ≠ queue.number := by
      intro hnumber
      apply hsame
      cases other
      cases queue
      exact congrArg Queue.mk hnumber
    rw [if_neg hnumber, if_neg hsame]

theorem backlog_effect (k : Kernel σ) {queue : Queue} (hopened : queue.number < k.backlogs.length)
    (step : Step σ) : (step.effect k).backlog queue = (k.backlog queue).after queue step := by
  cases step with
  | act | sleep | spawn | queued => rfl
  | openQueue =>
      change (k.backlogs ++ [_])[queue.number]?.getD _ = k.backlogs[queue.number]?.getD _
      rw [List.getElem?_append_left hopened]
  | enqueue other work accepted =>
      unfold Step.effect enqueue Backlog.after
      dsimp only
      by_cases hsame : other = queue
      · subst hsame
        cases hclosed : (k.backlog other).isClosed
        · simp [backlog_setBacklog k hopened]
        · simp
      · split <;> simp [hsame, backlog_setBacklog k hopened]
  | release other any =>
      have hbegin : ∀ (k : Kernel σ) (task : Routine σ Unit),
          (k.begin task).backlog queue = k.backlog queue := fun _ _ => rfl
      unfold Step.effect release Backlog.after
      dsimp only
      split <;> simp only [hbegin, backlog_setBacklog k hopened]

theorem length_backlogs_effect (k : Kernel σ) (step : Step σ) :
    k.backlogs.length ≤ (step.effect k).backlogs.length := by
  cases step with
  | act | sleep | spawn | queued => exact le_rfl
  | openQueue =>
      change k.backlogs.length ≤ (k.backlogs ++ [_]).length
      simp
  | enqueue other work accepted =>
      unfold Step.effect enqueue
      dsimp only
      split <;> simp [setBacklog]
  | release other any =>
      unfold Step.effect release
      dsimp only
      split <;> simp [setBacklog, Kernel.begin]

end Kernel

/-- Somebody releases the queue. -/
def Moment.Releases (queue : Queue) (moment : Moment σ) : Prop :=
  ∃ any, moment.step = .release queue any

/-- The work that somebody adds to the queue. -/
def Moment.work? (queue : Queue) (moment : Moment σ) : Option (Routine σ (Except Error Unit)) :=
  match moment.step with
  | .enqueue other work _ => if other = queue then some work else none
  | _ => none

/-- The work that was added to a queue, in order, by whomever. -/
def added (queue : Queue) (history : List (Moment σ)) : List (Routine σ (Except Error Unit)) :=
  history.filterMap (Moment.work? queue)

/-- Work that is added here finds the queue open, or else finds it closed. -/
def Finds (queue : Queue) (isOpen : Bool) (history : List (Moment σ)) : Prop :=
  ∀ moment ∈ history, ∀ work accepted, moment.step = .enqueue queue work accepted →
    accepted = isOpen

theorem Finds.cons {queue : Queue} {isOpen : Bool} {moment : Moment σ} {history : List (Moment σ)}
    (hfirst : ∀ work accepted, moment.step = .enqueue queue work accepted → accepted = isOpen)
    (hrest : Finds queue isOpen history) : Finds queue isOpen (moment :: history) := by
  intro other hother
  rcases List.mem_cons.mp hother with rfl | hother
  · exact hfirst
  · exact hrest other hother

/-- Work is accepted just by a queue that is open. -/
theorem Step.accepted_eq {k : Kernel σ} {queue : Queue} {work : Routine σ (Except Error Unit)}
    {accepted : Bool} (hanswered : (Step.enqueue queue work accepted).Answered k) :
    accepted = !(k.backlog queue).isClosed := by
  have haccepted : accepted = (k.enqueue queue work).1 := hanswered
  rw [haccepted, Kernel.enqueue]
  cases (k.backlog queue).isClosed <;> simp

namespace Kernel.Leads

variable {k last : Kernel σ} {queue : Queue} {history : List (Moment σ)}

/-- Up to its release a queue takes all the work that is added, and keeps it in order. -/
theorem collects (hleads : k.Leads history last) (hopened : queue.number < k.backlogs.length)
    (hopen : (k.backlog queue).isClosed = false)
    (hheld : ∀ moment ∈ history, ¬ moment.Releases queue) :
    Finds queue true history ∧ queue.number < last.backlogs.length ∧
      last.backlog queue = ⟨(k.backlog queue).works ++ added queue history, false⟩ := by
  induction hleads with
  | here k =>
      refine ⟨by simp [Finds], hopened, ?_⟩
      rw [added, List.filterMap_nil, List.append_nil, ← hopen]
  | aside hqueues _ ih =>
      rw [← backlog_congr hqueues queue] at hopen ⊢
      rw [← hqueues] at hopened
      exact ih hopened hopen hheld
  | @step k last history own step hanswered _ ih =>
      have heffect := k.backlog_effect hopened step
      have hstep : (k.backlog queue).after queue step = ⟨(k.backlog queue).works ++
          (Moment.work? queue ⟨own, step, step.begun? k⟩).toList, false⟩ := by
        cases step with
        | act | sleep | spawn | openQueue | queued =>
            simp [Backlog.after, Moment.work?, ← hopen]
        | enqueue other work accepted =>
            by_cases hsame : other = queue
            · simp [Backlog.after, Moment.work?, hsame, hopen]
            · simp [Backlog.after, Moment.work?, hsame, ← hopen]
        | release other any =>
            have hother : other ≠ queue := by
              rintro rfl
              exact hheld _ List.mem_cons_self ⟨any, rfl⟩
            simp [Backlog.after, Moment.work?, hother, ← hopen]
      rw [hstep] at heffect
      have hlater := ih (lt_of_lt_of_le hopened (k.length_backlogs_effect step))
        (by rw [heffect])
        (fun moment hmoment => hheld moment (List.mem_cons_of_mem _ hmoment))
      refine ⟨Finds.cons ?_ hlater.1, hlater.2.1, ?_⟩
      · rintro work accepted rfl
        rw [Step.accepted_eq hanswered, hopen, Bool.not_false]
      · rw [hlater.2.2, heffect, List.append_assoc]
        congr 2
        rw [added, added, List.filterMap_cons]
        cases Moment.work? queue ⟨own, step, step.begun? k⟩ <;> rfl

/-- A queue that was released takes nothing and begins nothing. -/
theorem refuses (hleads : k.Leads history last) (hopened : queue.number < k.backlogs.length)
    (hclosed : k.backlog queue = { isClosed := true }) :
    Finds queue false history ∧
      (∀ moment ∈ history, ∀ any, moment.step = .release queue any →
        any = false ∧ moment.begun? = none) ∧
      last.backlog queue = { isClosed := true } := by
  induction hleads with
  | here k => exact ⟨by simp [Finds], by simp, hclosed⟩
  | aside hqueues _ ih =>
      rw [← hqueues] at hopened
      exact ih hopened ((backlog_congr hqueues queue).trans hclosed)
  | @step k last history own step hanswered _ ih =>
      have heffect : (step.effect k).backlog queue = { isClosed := true } := by
        rw [k.backlog_effect hopened step, hclosed]
        cases step with
        | act | sleep | spawn | openQueue | queued => rfl
        | enqueue other work accepted => simp [Backlog.after]
        | release other any => simp [Backlog.after]
      have hlater := ih (lt_of_lt_of_le hopened (k.length_backlogs_effect step)) heffect
      refine ⟨Finds.cons ?_ hlater.1, ?_, hlater.2.2⟩
      · rintro work accepted rfl
        rw [Step.accepted_eq hanswered, hclosed, Bool.not_true]
      · intro moment hmoment any hstep
        rcases List.mem_cons.mp hmoment with rfl | hmoment
        · have hstep : step = .release queue any := hstep
          subst hstep
          have hany : any = (k.release queue).1 := hanswered
          rw [hany, Kernel.release, Step.begun?, hclosed]
          exact ⟨rfl, rfl⟩
        · exact hlater.2.1 moment hmoment any hstep

end Kernel.Leads
/-- A queue that was opened and nobody has released holds all that was added. -/
theorem Kernel.Leads.holds {k last : Kernel σ} {queue : Queue} {opening : Moment σ}
    {adding : List (Moment σ)} (hleads : k.Leads (opening :: adding) last)
    (hopening : opening.step = .openQueue queue)
    (hheld : ∀ moment ∈ adding, ¬ moment.Releases queue) :
    Finds queue true adding ∧ queue.number < last.backlogs.length ∧
      last.backlog queue = ⟨added queue adding, false⟩ := by
  obtain ⟨between, -, hanswered, -, hlater⟩ := hleads.head
  rw [hopening] at hanswered hlater
  have hqueue : queue = ⟨between.backlogs.length⟩ := hanswered
  have hbacklogs : (Step.effect between (.openQueue queue)).backlogs =
      between.backlogs ++ [⟨[], false⟩] := rfl
  have hopened : queue.number < (Step.effect between (.openQueue queue)).backlogs.length := by
    rw [hbacklogs, hqueue, List.length_append]
    exact Nat.lt_succ_self _
  have hnew : (Step.effect between (.openQueue queue)).backlog queue = ⟨[], false⟩ := by
    rw [backlog, hbacklogs, hqueue, List.getElem?_concat_length]
    rfl
  have hcollects := hlater.collects hopened (by rw [hnew]) hheld
  rw [hnew, List.nil_append] at hcollects
  exact hcollects

/-- The work that was added before a queue was released, and no other, is done by the task that
the release begins. -/
structure Drains (queue : Queue) (adding : List (Moment σ)) (release : Moment σ)
    (later : List (Moment σ)) (last : Kernel σ) : Prop where
  taken : Finds queue true adding
  tells : release.step = .release queue (!(added queue adding).isEmpty)
  begins : release.begun? =
    if (added queue adding).isEmpty then none else some (Background.runAll (added queue adding))
  refused : Finds queue false later
  spent : ∀ moment ∈ later, ∀ any, moment.step = .release queue any →
    any = false ∧ moment.begun? = none
  emptied : last.backlog queue = { isClosed := true }

theorem Kernel.Leads.drains {k last : Kernel σ} {queue : Queue} {opening release : Moment σ}
    {adding later : List (Moment σ)}
    (hleads : k.Leads (opening :: (adding ++ release :: later)) last)
    (hopening : opening.step = .openQueue queue) (hrelease : release.Releases queue)
    (hheld : ∀ moment ∈ adding, ¬ moment.Releases queue) :
    Drains queue adding release later last := by
  obtain ⟨any, hany⟩ := hrelease
  rw [← List.cons_append] at hleads
  obtain ⟨middle, hadding, hrest⟩ := hleads.split
  obtain ⟨htaken, hopened, hholds⟩ := hadding.holds hopening hheld
  obtain ⟨between, hbetween, hanswered, hbegun, hlater⟩ := hrest.head
  rw [hany] at hanswered hbegun hlater
  have hwork : between.backlog queue = ⟨added queue adding, false⟩ :=
    (backlog_congr hbetween queue).trans hholds
  rw [← hbetween] at hopened
  have htold : any = (between.release queue).1 := hanswered
  have hclosed : (Step.effect between (.release queue any)).backlog queue =
      { isClosed := true } := by
    rw [between.backlog_effect hopened, Backlog.after, if_pos rfl]
  obtain ⟨hrefused, hspent, hemptied⟩ := hlater.refuses
    (lt_of_lt_of_le hopened (between.length_backlogs_effect _)) hclosed
  refine ⟨htaken, ?_, ?_, hrefused, hspent, hemptied⟩
  · rw [hany, htold, Kernel.release, hwork]
    cases added queue adding <;> rfl
  · rw [hbegun, Step.begun?, hwork]

end WebApp
