import Mathlib.Tactic
import WebApp.Proofs.Task.Pauses

/-!
# What happens in a world

All that threads do to the clock, the journal, the queues and the tasks they do in steps, and each
step is answered as things stand.  A history is the list of these steps, those of one thread told
from those of all others.  Whatever happens in a world is such a history; the steps of its main
thread are those of one of its runs, up to the end or up to the pause where it was given up.
-/

namespace WebApp

variable {σ α β : Type}

namespace Step

/-- The step is answered as things stand. -/
def Answered (k : Kernel σ) : Step σ → Prop
  | .act now before _ => now = k.now ∧ before = k.journal
  | .sleep _ => True
  | .spawn _ => True
  | .openQueue queue => queue = k.openQueue.1
  | .enqueue queue work accepted => accepted = (k.enqueue queue work).1
  | .queued queue count => count = (k.backlog queue).works.length
  | .release queue any => any = (k.release queue).1

/-- How things stand after the step. -/
def effect (k : Kernel σ) : Step σ → Kernel σ
  | .act _ _ after => { k with journal := after }
  | .sleep _ => k
  | .spawn task => k.begin task
  | .openQueue _ => k.openQueue.2
  | .enqueue queue work _ => (k.enqueue queue work).2
  | .queued _ _ => k
  | .release queue _ => (k.release queue).2

/-- The task that the step begins and does not wait for. -/
def begun? (k : Kernel σ) : Step σ → Option (Routine σ Unit)
  | .spawn task => some task
  | .release queue _ =>
    if (k.backlog queue).works.isEmpty then none
    else some (Background.runAll (k.backlog queue).works)
  | _ => none

end Step

/-- A step that was made, by the thread that the history is about or by another. -/
structure Moment (σ : Type) : Type 1 where
  own : Bool
  step : Step σ
  /-- The task that it has begun. -/
  begun? : Option (Routine σ Unit)

/-- The steps of the thread that a history is about. -/
def ownSteps (history : List (Moment σ)) : List (Step σ) :=
  (history.filter Moment.own).map Moment.step

theorem ownSteps_append (first second : List (Moment σ)) :
    ownSteps (first ++ second) = ownSteps first ++ ownSteps second := by
  simp [ownSteps]

theorem ownSteps_eq_map {history : List (Moment σ)} (hown : ∀ moment ∈ history, moment.own = true) :
    ownSteps history = history.map Moment.step := by
  rw [ownSteps, List.filter_eq_self.mpr hown]

theorem ownSteps_eq_nil {history : List (Moment σ)}
    (hother : ∀ moment ∈ history, moment.own = false) : ownSteps history = [] := by
  have hnone : history.filter Moment.own = [] := by
    rw [List.filter_eq_nil_iff]
    intro moment hmoment
    rw [hother moment hmoment]
    exact Bool.false_ne_true
  rw [ownSteps, hnone, List.map_nil]

theorem exists_of_ownSteps_eq_append {history : List (Moment σ)} {first second : List (Step σ)}
    (hsteps : ownSteps history = first ++ second) :
    ∃ before behind, history = before ++ behind ∧ ownSteps before = first ∧
      ownSteps behind = second := by
  obtain ⟨owned, rest, hfilter, rfl, rfl⟩ := List.map_eq_append_iff.mp hsteps
  obtain ⟨before, behind, rfl, rfl, rfl⟩ := List.filter_eq_append_iff.mp hfilter
  exact ⟨before, behind, rfl, rfl, rfl⟩

theorem exists_of_ownSteps_eq_cons {history : List (Moment σ)} {step : Step σ}
    {rest : List (Step σ)} (hsteps : ownSteps history = step :: rest) :
    ∃ before moment behind, history = before ++ moment :: behind ∧ ownSteps before = [] ∧
      moment.own = true ∧ moment.step = step ∧ ownSteps behind = rest := by
  obtain ⟨moment, owned, hfilter, rfl, rfl⟩ := List.map_eq_cons_iff.mp hsteps
  obtain ⟨before, behind, rfl, hbefore, hown, rfl⟩ := List.filter_eq_cons_iff.mp hfilter
  refine ⟨before, moment, behind, rfl, ?_, hown, rfl, rfl⟩
  apply ownSteps_eq_nil
  intro other hother
  exact Bool.not_eq_true _ ▸ hbefore other hother

/-- These steps lead from one state of things to another.  In between the clock goes on, the
journal may be written from outside, and tasks that were begun are taken over; the queues are only
touched by steps. -/
inductive Kernel.Leads : Kernel σ → List (Moment σ) → Kernel σ → Prop where
  | here (k : Kernel σ) : Leads k [] k
  | aside {k between last : Kernel σ} {history : List (Moment σ)} :
      between.backlogs = k.backlogs → Leads between history last → Leads k history last
  | step {k last : Kernel σ} {history : List (Moment σ)} (own : Bool) (step : Step σ) :
      step.Answered k → Leads (step.effect k) history last →
      Leads k (⟨own, step, step.begun? k⟩ :: history) last

theorem Kernel.Leads.append {k middle last : Kernel σ} {first second : List (Moment σ)}
    (hfirst : k.Leads first middle) (hsecond : middle.Leads second last) :
    k.Leads (first ++ second) last := by
  induction hfirst with
  | here => exact hsecond
  | aside hqueues _ ih => exact .aside hqueues (ih hsecond)
  | step own step hanswered _ ih => exact .step own step hanswered (ih hsecond)

theorem Kernel.Leads.split {k last : Kernel σ} {first second : List (Moment σ)}
    (hleads : k.Leads (first ++ second) last) :
    ∃ middle, k.Leads first middle ∧ middle.Leads second last := by
  generalize hhistory : first ++ second = history at hleads
  induction hleads generalizing first with
  | here k =>
      rw [List.append_eq_nil_iff] at hhistory
      rw [hhistory.1, hhistory.2]
      exact ⟨k, .here k, .here k⟩
  | aside hqueues _ ih =>
      obtain ⟨middle, hfirst, hsecond⟩ := ih hhistory
      exact ⟨middle, .aside hqueues hfirst, hsecond⟩
  | @step k last history own step hanswered hlater ih =>
      cases first with
      | nil =>
          rw [List.nil_append] at hhistory
          rw [hhistory]
          exact ⟨k, .here k, .step own step hanswered hlater⟩
      | cons moment first =>
          obtain ⟨rfl, htail⟩ := List.cons.inj hhistory
          obtain ⟨middle, hfirst, hsecond⟩ := ih htail
          exact ⟨middle, .step own step hanswered hfirst, hsecond⟩

/-- The first step of a history, with what had changed by itself before it. -/
theorem Kernel.Leads.head {k last : Kernel σ} {moment : Moment σ} {history : List (Moment σ)}
    (hleads : k.Leads (moment :: history) last) :
    ∃ between : Kernel σ, between.backlogs = k.backlogs ∧ moment.step.Answered between ∧
      moment.begun? = moment.step.begun? between ∧
      (moment.step.effect between).Leads history last := by
  generalize hhistory : moment :: history = whole at hleads
  induction hleads with
  | here => exact absurd hhistory (List.cons_ne_nil _ _)
  | aside hqueues _ ih =>
      obtain ⟨between, hbetween, hfirst⟩ := ih hhistory
      exact ⟨between, hbetween.trans hqueues, hfirst⟩
  | step own step hanswered hlater _ =>
      obtain ⟨rfl, rfl⟩ := List.cons.inj hhistory
      exact ⟨_, rfl, hanswered, rfl, hlater⟩

/-- The steps of somebody lead from one state of things to another. -/
def Kernel.LeadsBy (own : Bool) (k : Kernel σ) (steps : List (Step σ)) (last : Kernel σ) : Prop :=
  ∃ history, k.Leads history last ∧ (∀ moment ∈ history, moment.own = own) ∧
    history.map Moment.step = steps

namespace Kernel.LeadsBy

variable {own : Bool} {k middle last : Kernel σ} {first second steps : List (Step σ)}

theorem none (own : Bool) (k : Kernel σ) : k.LeadsBy own [] k :=
  ⟨[], .here k, by simp, rfl⟩

theorem cons (step : Step σ) (hanswered : step.Answered k)
    (hlater : (step.effect k).LeadsBy own steps last) : k.LeadsBy own (step :: steps) last := by
  obtain ⟨history, hleads, hown, rfl⟩ := hlater
  refine ⟨_, .step own step hanswered hleads, ?_, rfl⟩
  intro moment hmoment
  rcases List.mem_cons.mp hmoment with rfl | hmoment
  · rfl
  · exact hown moment hmoment

theorem append (hfirst : k.LeadsBy own first middle) (hsecond : middle.LeadsBy own second last) :
    k.LeadsBy own (first ++ second) last := by
  obtain ⟨before, hbefore, hown, rfl⟩ := hfirst
  obtain ⟨behind, hbehind, hownBehind, rfl⟩ := hsecond
  refine ⟨before ++ behind, hbefore.append hbehind, ?_, List.map_append⟩
  intro moment hmoment
  rcases List.mem_append.mp hmoment with hmoment | hmoment
  · exact hown moment hmoment
  · exact hownBehind moment hmoment

end Kernel.LeadsBy

/-! ## Threads that go on -/

/-- Behind these steps a thread has come to its end, or to this pause. -/
def Progress.Behind (runs : List (Step σ) → Outcome α → Prop)
    (reaches : List (Step σ) → Thread σ α → Prop) (steps : List (Step σ)) :
    Progress σ α → Prop
  | .ended outcome => runs steps outcome
  | .paused thread _ => reaches steps thread

/-- A stretch of steps, and where it has brought a thread. -/
def Stretch (own : Bool) (k : Kernel σ) (runs : List (Step σ) → Outcome α → Prop)
    (reaches : List (Step σ) → Thread σ α → Prop) (went : Progress σ α × Kernel σ) : Prop :=
  ∃ steps, k.LeadsBy own steps went.2 ∧ went.1.Behind runs reaches steps

/-- One step is answered, and then the routine goes on with what follows on the answer. -/
theorem Stretch.answer {γ : Type} {own : Bool} {k : Kernel σ} {answers : List (Step σ) → γ → Prop}
    {runs : γ → List (Step σ) → Outcome α → Prop}
    {reaches : γ → List (Step σ) → Thread σ α → Prop} {went : Progress σ α × Kernel σ}
    (step : Step σ) {answer : γ} (hanswered : step.Answered k) (hanswer : answers [step] answer)
    (hlater : Stretch own (step.effect k) (runs answer) (reaches answer) went) :
    Stretch own k (Routine.Asks answers runs) (Routine.Asks answers reaches) went := by
  obtain ⟨steps, hleads, hbehind⟩ := hlater
  refine ⟨step :: steps, .cons step hanswered hleads, ?_⟩
  obtain ⟨progress, last⟩ := went
  cases progress with
  | ended outcome => exact ⟨answer, [step], steps, rfl, hanswer, hbehind⟩
  | paused thread pause => exact ⟨answer, [step], steps, rfl, hanswer, hbehind⟩

/-- A part has ended after some steps, and the routine goes on with what follows on it. -/
theorem Stretch.part {own : Bool} {k middle : Kernel σ} {runs : List (Step σ) → Outcome β → Prop}
    {follows : Outcome β → Routine σ α} {went : Progress σ α × Kernel σ} {ended : Outcome β}
    {first : List (Step σ)} (hleads : k.LeadsBy own first middle) (hended : runs first ended)
    (hlater : Stretch own middle (follows ended).Runs (follows ended).Reaches went) :
    Stretch own k (Routine.Asks runs fun ended => (follows ended).Runs)
      (Routine.Asks runs fun ended => (follows ended).Reaches) went := by
  obtain ⟨steps, hlast, hbehind⟩ := hlater
  refine ⟨first ++ steps, hleads.append hlast, ?_⟩
  obtain ⟨progress, last⟩ := went
  cases progress with
  | ended outcome => exact ⟨ended, first, steps, rfl, hended, hbehind⟩
  | paused thread pause => exact ⟨ended, first, steps, rfl, hended, hbehind⟩

theorem Stretch.imp_reaches {own : Bool} {k : Kernel σ}
    {runs : List (Step σ) → Outcome α → Prop} {reaches reaches' : List (Step σ) → Thread σ α → Prop}
    {went : Progress σ α × Kernel σ} (hstretch : Stretch own k runs reaches went)
    (himp : ∀ steps thread, reaches steps thread → reaches' steps thread) :
    Stretch own k runs reaches' went := by
  obtain ⟨steps, hleads, hbehind⟩ := hstretch
  refine ⟨steps, hleads, ?_⟩
  obtain ⟨progress, last⟩ := went
  cases progress with
  | ended outcome => exact hbehind
  | paused thread pause => exact himp _ _ hbehind

theorem Routine.advance_stretch (own : Bool) (r : Routine σ α) (k : Kernel σ) :
    Stretch own k r.Runs r.Reaches (r.advance k) := by
  induction r generalizing k with
  | done value => exact ⟨[], .none own k, rfl, rfl⟩
  | panic text => exact ⟨[], .none own k, rfl, rfl⟩
  | act step next ih =>
      exact Stretch.answer (.act k.now k.journal _) ⟨rfl, rfl⟩ ⟨k.now, k.journal, rfl, rfl⟩ (ih _ _)
  | sleep duration next ih =>
      by_cases hzero : duration = 0
      · have hlater : Stretch own k (Routine.sleep duration next).Runs
            (Asks (fun asked (_ : Unit) => asked = [.sleep duration]) fun answer =>
              (next answer).Reaches)
            ((next ()).advance k) :=
          Stretch.answer (.sleep duration) trivial rfl (ih () k)
        simp only [advance, if_pos hzero]
        exact hlater.imp_reaches fun steps thread hreaches => .inr hreaches
      · simp only [advance, if_neg hzero]
        exact ⟨[.sleep duration], .cons _ trivial (.none own k), .inl ⟨rfl, rfl⟩⟩
  | spawn task next _ ih => exact Stretch.answer (.spawn task) trivial rfl (ih () _)
  | await place task next _ _ =>
      cases place <;>
        exact ⟨[], .none own k, .inl ⟨.running task, .inl ⟨rfl, rfl⟩, rfl⟩⟩
  | guarded inner dropped next ihinner _ ih =>
      obtain ⟨first, hleads, hbehind⟩ := ihinner k
      simp only [advance]
      cases hadvance : inner.advance k with
      | mk progress k' =>
          rw [hadvance] at hleads hbehind
          cases progress with
          | ended ended =>
              have hlater := Stretch.part hleads hbehind (ih ended k')
              exact hlater.imp_reaches fun steps thread hreaches => .inr hreaches
          | paused thread pause => exact ⟨first, hleads, .inl ⟨thread, hbehind, rfl⟩⟩
  | openQueue next ih => exact Stretch.answer (.openQueue _) rfl rfl (ih _ _)
  | enqueue queue work next _ ih => exact Stretch.answer (.enqueue queue work _) rfl rfl (ih _ _)
  | queued queue next ih => exact Stretch.answer (.queued queue _) rfl rfl (ih _ _)
  | release queue next ih => exact Stretch.answer (.release queue _) rfl rfl (ih _ _)

theorem Thread.poll_stretch (own : Bool) (t : Thread σ α) (k : Kernel σ) :
    Stretch own k t.Runs t.Reaches (t.poll k) := by
  induction t generalizing k with
  | running rest =>
      exact (rest.advance_stretch own k).imp_reaches fun steps thread hreaches => .inr hreaches
  | waiting task next ih =>
      obtain ⟨first, hleads, hbehind⟩ := ih k
      simp only [poll]
      cases hpoll : task.poll k with
      | mk progress k' =>
          rw [hpoll] at hleads hbehind
          cases progress with
          | ended ended =>
              exact ⟨first, hleads,
                .inr ⟨ended, first, [], (List.append_nil _).symm, hbehind, .inl ⟨rfl, rfl⟩⟩⟩
          | paused thread pause => exact ⟨first, hleads, .inl ⟨thread, hbehind, rfl⟩⟩
  | guarding inner dropped next ih =>
      obtain ⟨first, hleads, hbehind⟩ := ih k
      simp only [poll]
      cases hpoll : inner.poll k with
      | mk progress k' =>
          rw [hpoll] at hleads hbehind
          cases progress with
          | ended ended =>
              have hlater := Stretch.part hleads hbehind ((next ended).advance_stretch own k')
              exact hlater.imp_reaches fun steps thread hreaches => .inr hreaches
          | paused thread pause => exact ⟨first, hleads, .inl ⟨thread, hbehind, rfl⟩⟩

/-- Giving a thread up makes the steps that quitting it takes. -/
theorem Thread.abandon_quits (own : Bool) (t : Thread σ α) (k : Kernel σ) :
    ∃ steps, k.LeadsBy own steps (t.abandon k).2 ∧ t.Quits (t.abandon k).1 steps := by
  induction t generalizing k with
  | running rest => exact ⟨[], .none own k, rfl, rfl⟩
  | waiting task next ih => exact ⟨[], .none own k, rfl, rfl⟩
  | guarding inner dropped next ih =>
      obtain ⟨first, hfirst, hquits⟩ := ih k
      obtain ⟨last, hlast, hbehind⟩ := dropped.advance_stretch own (inner.abandon k).2
      have hdropped : (∃ ended, dropped.Runs last ended) ∨
          ∃ thread, dropped.Reaches last thread := by
        cases hprogress : (dropped.advance (inner.abandon k).2).1 with
        | ended outcome =>
            rw [hprogress] at hbehind
            exact .inl ⟨outcome, hbehind⟩
        | paused thread pause =>
            rw [hprogress] at hbehind
            exact .inr ⟨thread, hbehind⟩
      exact ⟨first ++ last, hfirst.append hlast, first, last, rfl, hquits, hdropped⟩

namespace World

/-- The way from one thread to another, in a world that is now so. -/
def Way (t : Thread σ α) (k : Kernel σ) (thread : Thread σ α) (last : Kernel σ) : Prop :=
  ∃ history, k.Leads history last ∧ t.Reaches (ownSteps history) thread

/-- The thread has come to its end in a world that is now so. -/
def Ended (t : Thread σ α) (k : Kernel σ) (outcome : Outcome α) (last : Kernel σ) : Prop :=
  ∃ history, k.Leads history last ∧ t.Runs (ownSteps history) outcome

/-- The thread has come to a pause and was given up there, in a world that is now so. -/
def GivenUp (t : Thread σ α) (k : Kernel σ) (last : Kernel σ) : Prop :=
  ∃ history quitting thread orphan, k.Leads (history ++ quitting) last ∧
    t.Reaches (ownSteps history) thread ∧ thread.Quits orphan (ownSteps quitting)

/-- How a thread has ended, or that it was given up. -/
def Accounted (t : Thread σ α) (k : Kernel σ) : Finish α × World σ → Prop
  | (.ended outcome, w) => Ended t k outcome w.kernel
  | (_, w) => GivenUp t k w.kernel

section

variable {t thread : Thread σ α} {k middle last : Kernel σ}

theorem Way.refl (t : Thread σ α) (k : Kernel σ) : Way t k t k :=
  ⟨[], .here k, t.reaches_self⟩

/-- While others go on the thread stays where it is. -/
theorem Way.others {steps : List (Step σ)} (hway : Way t k thread middle)
    (hothers : middle.LeadsBy false steps last) : Way t k thread last := by
  obtain ⟨history, hleads, hreaches⟩ := hway
  obtain ⟨more, hmore, hother, -⟩ := hothers
  refine ⟨history ++ more, hleads.append hmore, ?_⟩
  rw [ownSteps_append, ownSteps_eq_nil hother, List.append_nil]
  exact hreaches

/-- Where only the queues are the same the way is not another one. -/
theorem Way.aside (hway : Way t k thread middle) (hqueues : last.backlogs = middle.backlogs) :
    Way t k thread last := by
  obtain ⟨history, hleads, hreaches⟩ := hway
  have hlast : k.Leads (history ++ []) last := hleads.append (.aside hqueues (.here last))
  rw [List.append_nil] at hlast
  exact ⟨history, hlast, hreaches⟩

theorem Ended.aside {outcome : Outcome α} (hended : Ended t k outcome middle)
    (hqueues : last.backlogs = middle.backlogs) : Ended t k outcome last := by
  obtain ⟨history, hleads, hruns⟩ := hended
  have hlast : k.Leads (history ++ []) last := hleads.append (.aside hqueues (.here last))
  rw [List.append_nil] at hlast
  exact ⟨history, hlast, hruns⟩

/-- After its own steps the thread has ended or is further on its way. -/
theorem Way.poll (hway : Way t k thread middle) :
    (∀ outcome, (thread.poll middle).1 = .ended outcome →
      Ended t k outcome (thread.poll middle).2) ∧
    ∀ next pause, (thread.poll middle).1 = .paused next pause →
      Way t k next (thread.poll middle).2 := by
  obtain ⟨history, hleads, hreaches⟩ := hway
  obtain ⟨_, ⟨more, hmore, hown, rfl⟩, hbehind⟩ := thread.poll_stretch true middle
  have hwhole : k.Leads (history ++ more) (thread.poll middle).2 := hleads.append hmore
  have hsteps : ownSteps (history ++ more) = ownSteps history ++ more.map Moment.step := by
    rw [ownSteps_append, ownSteps_eq_map hown]
  constructor
  · intro outcome hprogress
    rw [hprogress] at hbehind
    refine ⟨_, hwhole, ?_⟩
    rw [hsteps]
    exact hreaches.runs hbehind
  · intro next pause hprogress
    rw [hprogress] at hbehind
    refine ⟨_, hwhole, ?_⟩
    rw [hsteps]
    exact hreaches.trans hbehind

end

namespace Run

variable {t : Thread σ α} {k : Kernel σ}

/-- Where a main thread is after somebody has gone on. -/
def Onward (t : Thread σ α) (k : Kernel σ) : Outcome α × World σ ⊕ Run σ α → Prop
  | .inl (outcome, w) => Ended t k outcome w.kernel
  | .inr r => Way t k r.thread r.world.kernel

theorem settle_thread (w : World σ) (thread : Thread σ α) (pause : Pause) :
    (settle w thread pause).thread = thread := by
  unfold settle
  split <;> rfl

theorem place_kernel (w : World σ) (slot : Slot σ) (pause : Pause) :
    (w.place slot pause).kernel = w.kernel := by
  cases pause <;> rfl

theorem settle_kernel (w : World σ) (thread : Thread σ α) (pause : Pause) :
    (settle w thread pause).world.kernel = w.kernel := by
  unfold settle
  split
  · rfl
  · exact place_kernel w .main _

theorem pollMain_onward {r : Run σ α} (hway : Way t k r.thread r.world.kernel) :
    Onward t k r.pollMain := by
  obtain ⟨hended, hpaused⟩ := hway.poll
  simp only [pollMain]
  cases hpoll : r.thread.poll r.world.kernel with
  | mk progress last =>
      rw [hpoll] at hended hpaused
      cases progress with
      | ended outcome =>
          exact (hended outcome rfl).aside rfl
      | paused thread pause =>
          simp only [Onward, settle_thread, settle_kernel]
          exact (hpaused thread pause rfl).aside rfl

theorem pollStrand_leads (w : World σ) (strand : Strand σ) :
    ∃ steps middle, w.kernel.LeadsBy false steps middle ∧
      (w.pollStrand strand).kernel.backlogs = middle.backlogs := by
  obtain ⟨steps, hleads, -⟩ := strand.thread.poll_stretch false w.kernel
  refine ⟨steps, _, hleads, ?_⟩
  simp only [pollStrand]
  cases hpoll : strand.thread.poll w.kernel with
  | mk progress last =>
      cases progress with
      | ended outcome => rfl
      | paused thread pause => simp only [place_kernel]; rfl

theorem pollSlot_onward {r : Run σ α} (slot : Slot σ) (hway : Way t k r.thread r.world.kernel) :
    Onward t k (r.pollSlot slot) := by
  cases slot with
  | main =>
      have hmain := pollMain_onward hway
      simp only [pollSlot]
      cases hresult : r.pollMain with
      | inl done => rwa [hresult] at hmain
      | inr next => rwa [hresult] at hmain
  | strand strand =>
      obtain ⟨steps, middle, hleads, hqueues⟩ := pollStrand_leads r.world strand
      exact (hway.others hleads).aside hqueues

/-- Time may pass, but no thread goes on, and no queue is touched. -/
theorem jump_spec (r : Run σ α) (instant : Nat) :
    (r.jump instant).thread = r.thread ∧
      (r.jump instant).world.kernel.backlogs = r.world.kernel.backlogs := by
  have hfold : ∀ (wake : Run σ α → Slot σ → Run σ α),
      (∀ r slot, (wake r slot).thread = r.thread ∧
        (wake r slot).world.kernel.backlogs = r.world.kernel.backlogs) →
      ∀ (due : List (Slot σ)) (r : Run σ α), (due.foldl wake r).thread = r.thread ∧
        (due.foldl wake r).world.kernel.backlogs = r.world.kernel.backlogs := by
    intro wake hwake due
    induction due with
    | nil => exact fun r => ⟨rfl, rfl⟩
    | cons slot due ih =>
        intro r
        rw [List.foldl_cons, (ih _).1, (ih _).2]
        exact hwake r slot
  refine hfold _ ?_ _ _
  intro r slot
  split
  · exact ⟨rfl, rfl⟩
  · exact ⟨rfl, rfl⟩

theorem jump_way {r : Run σ α} (instant : Nat) (hway : Way t k r.thread r.world.kernel) :
    Way t k (r.jump instant).thread (r.jump instant).world.kernel := by
  rw [(r.jump_spec instant).1]
  exact hway.aside (r.jump_spec instant).2

theorem abandon_givenUp {r : Run σ α} (hway : Way t k r.thread r.world.kernel) :
    GivenUp t k r.abandon.kernel := by
  obtain ⟨history, hleads, hreaches⟩ := hway
  obtain ⟨_, ⟨quitting, hquitting, hown, rfl⟩, hquits⟩ :=
    r.thread.abandon_quits true r.world.kernel
  have hqueues : r.abandon.kernel.backlogs =
      (r.thread.abandon r.world.kernel).2.backlogs := rfl
  have hlast : k.Leads (history ++ (quitting ++ [])) r.abandon.kernel :=
    hleads.append (hquitting.append (.aside hqueues (.here _)))
  rw [List.append_nil] at hlast
  rw [← ownSteps_eq_map hown] at hquits
  exact ⟨history, quitting, r.thread, _, hlast, hreaches, hquits⟩

theorem loop_accounted (deadline : Option Nat) (fuel turns : Nat) (r : Run σ α)
    (hway : Way t k r.thread r.world.kernel) : Accounted t k (loop deadline fuel turns r) := by
  -- Whoever goes on, the main thread has ended or the loop goes on behind it.
  have hnext : ∀ (fuel turns : Nat) (went : Outcome α × World σ ⊕ Run σ α), Onward t k went →
      (∀ r : Run σ α, Way t k r.thread r.world.kernel →
        Accounted t k (loop deadline fuel turns r)) →
      Accounted t k (match went with
        | .inl (outcome, w) => (.ended outcome, w)
        | .inr r => loop deadline fuel turns r) := by
    intro fuel turns went honward hlater
    cases went with
    | inl done => exact honward
    | inr r => exact hlater r honward
  induction fuel generalizing turns r with
  | zero => exact abandon_givenUp hway
  | succ fuel ih =>
      cases turns with
      | zero =>
          simp only [loop]
          split
          · exact hnext fuel turnsInRow _ (pollMain_onward hway) (ih turnsInRow)
          · exact ih _ _ hway
      | succ turns =>
          simp only [loop]
          split
          · exact hnext fuel turns _ (pollSlot_onward _ hway) (ih turns)
          · split
            · exact ih _ _ hway
            · split
              · exact hnext fuel 0 _ (pollSlot_onward _ hway) (ih 0)
              · split
                · exact abandon_givenUp hway
                · exact ih 0 _ (jump_way _ hway)
                · exact abandon_givenUp (jump_way _ hway)
                · split
                  · exact abandon_givenUp (jump_way _ hway)
                  · exact ih 0 _ (jump_way _ hway)

end Run

/-- What happens while a routine is the main thread of a world. -/
theorem run_accounted (w : World σ) (r : Routine σ α) :
    Accounted (.running r) w.kernel (w.run r) :=
  Run.loop_accounted none turnLimit 0 { world := w, thread := .running r } (.refl _ _)

/-- A routine that comes to its end in a world has made one of its runs. -/
theorem exists_runs_of_run {w w' : World σ} {r : Routine σ α} {outcome : Outcome α}
    (hrun : w.run r = (.ended outcome, w')) : ∃ steps, r.Runs steps outcome := by
  have haccounted := run_accounted w r
  rw [hrun] at haccounted
  obtain ⟨history, -, hruns⟩ := haccounted
  exact ⟨ownSteps history, hruns⟩

/-- What happens while a routine is the main thread of a world for some time. -/
theorem runFor_accounted (w : World σ) (duration : Nat) (r : Routine σ α) :
    Accounted (.running r) w.kernel (w.runFor duration r) := by
  have hway : Way (.running r) w.kernel (.running r) w.kernel := .refl _ _
  have hpoll : Run.Onward (.running r) w.kernel
      (Run.pollMain { world := w, thread := .running r }) := Run.pollMain_onward hway
  simp only [runFor]
  split
  · split
    next hresult =>
      rw [hresult] at hpoll
      exact hpoll
    next hresult =>
      rw [hresult] at hpoll
      exact Run.abandon_givenUp hpoll
  · exact Run.loop_accounted _ _ _ _ hway

end World
end WebApp
