import Mathlib.Tactic
import WebApp.Proofs.Security.SlidingLog

/-!
# Checks that come late

A check reads the clock before it gets hold of the limiter, so that checks need not come in the
order of their instants.  What a late check would have to count may be forgotten by then: a check
of a later instant has cut it off, or a sweep has dropped it together with an older instant that
came last.  Let no check lag too far behind another one before it.  Then the limit holds of all
intervals that are shorter than the window by twice that lag, and of no longer ones.
-/

namespace WebApp
namespace Limiter

/-- Checks of clients with their instants, in the order in which they get hold of the limiter. -/
def checks (calls : List (Nat × String)) : List (Nat × Use) :=
  calls.map fun call => (call.1, .check call.2)

/-- No use has an instant that is further than this behind the instant of a use before it. -/
def Within (lag : Nat) (uses : List (Nat × Use)) : Prop :=
  uses.Pairwise fun earlier later => earlier.1 ≤ later.1 + lag

/-- What the log of a limiter gains by uses that follow one another. -/
def admits (l : Limiter) (uses : List (Nat × Use)) : Log :=
  Log.admitted uses (l.answers uses)

variable {l : Limiter} {log : Log} {latest lag length now : Nat} {client : String}

/-- The number of admitted checks of a client in an interval of this length is at most the
limit. -/
def Bounded (limit length : Nat) (log : Log) : Prop :=
  ∀ client first, log.inInterval length first client ≤ limit

namespace Remembers

/-- Where there is room in the bucket, there is room in every interval that is short enough. -/
theorem bounded_accept (remembers : Remembers l log latest lag) (hnow : now ≤ latest)
    (hlatest : latest ≤ now + lag) (hshort : length + 2 * lag ≤ l.window)
    (hroom : (l.bucket client now).length < l.limit) (hbounded : Bounded l.limit length log) :
    Bounded l.limit length (log ++ [(client, now)]) := by
  intro other first
  by_cases hother : other = client
  · subst hother
    obtain ⟨dropped, hlog, hdead⟩ := remembers.cut hnow other
    simp only [Log.inInterval, Log.instants_append_self, List.countP_append, List.countP_singleton]
    split
    next hinside =>
      -- Nothing in the interval has been dropped.
      have hnone : dropped.countP (fun seen => first ≤ seen ∧ seen < first + length) = 0 := by
        rw [List.countP_eq_zero]
        intro seen hseen
        have := hdead seen hseen
        simp only [decide_eq_true_eq] at hinside ⊢
        omega
      have hkept := List.countP_le_length
        (l := l.bucket other now) (p := fun seen => first ≤ seen ∧ seen < first + length)
      rw [hlog, List.countP_append, hnone]
      omega
    next => exact hbounded other first
  · rw [Log.inInterval, Log.instants_append_of_ne hother]
    exact hbounded other first

end Remembers

/-- What the answer to a check adds to the log. -/
def addition (now : Nat) (client : String) (answer : Except HttpError Unit) : Log :=
  (Log.addition? ((now, .check client), some answer)).toList

/-- The limiter after a use of a lag at most this. -/
theorem Remembers.count (remembers : Remembers l log latest lag) (hnow : now ≤ latest)
    (hlatest : latest ≤ now + lag) (hshort : length + 2 * lag ≤ l.window)
    (hbounded : Bounded l.limit length log) (client : String) :
    Remembers (l.count client now).1 (log ++ addition now client (l.count client now).2) latest
      lag ∧
    Bounded l.limit length (log ++ addition now client (l.count client now).2) := by
  by_cases hfull : l.limit ≤ (l.bucket client now).length
  · simp only [Limiter.count, if_pos hfull, addition, Log.addition?, Option.toList_none,
      List.append_nil]
    exact ⟨remembers.refuse hnow client, hbounded⟩
  · simp only [Limiter.count, if_neg hfull, addition, Log.addition?, Option.toList_some]
    exact ⟨remembers.accept hnow hlatest client,
      remembers.bounded_accept hnow hlatest hshort (by omega) hbounded⟩

theorem Remembers.check (remembers : Remembers l log latest lag) (hnow : now ≤ latest)
    (hlatest : latest ≤ now + lag) (hshort : length + 2 * lag ≤ l.window)
    (hbounded : Bounded l.limit length log) (client : String) :
    Remembers (l.check client now).1 (log ++ addition now client (l.check client now).2.2) latest
      lag ∧
    Bounded l.limit length (log ++ addition now client (l.check client now).2.2) ∧
    (l.check client now).1.limit = l.limit ∧ (l.check client now).1.window = l.window := by
  obtain ⟨swept, hswept, hnext, hanswer⟩ := exists_count_of_check l client now
  have hremembers : Remembers swept log latest lag := by
    rcases hswept with rfl | rfl
    · exact remembers
    · exact remembers.sweep hnow
  have hsettings : swept.limit = l.limit ∧ swept.window = l.window := by
    rcases hswept with rfl | rfl <;> exact ⟨rfl, rfl⟩
  obtain ⟨hcounted, hstill⟩ := hremembers.count hnow hlatest (hsettings.2 ▸ hshort)
    (hsettings.1 ▸ hbounded) client
  have hkept := settings_check l client now
  rw [hsettings.1] at hstill
  rw [hnext] at hkept ⊢
  rw [hanswer]
  exact ⟨hcounted, hstill, hkept⟩

/-- Uses that lag no further behind one another keep every short interval within the limit. -/
theorem Remembers.bounded_admits (remembers : Remembers l log latest lag)
    (hshort : length + 2 * lag ≤ l.window) (hbounded : Bounded l.limit length log)
    (uses : List (Nat × Use)) (hlatest : ∀ use ∈ uses, latest ≤ use.1 + lag)
    (hwithin : Within lag uses) : Bounded l.limit length (log ++ l.admits uses) := by
  induction uses generalizing l log latest with
  | nil => simpa [admits, Log.admitted, answers] using hbounded
  | cons use rest ih =>
      obtain ⟨now, use⟩ := use
      rw [Within, List.pairwise_cons] at hwithin
      have hnow : now ≤ max latest now := le_max_right _ _
      have hmax : max latest now ≤ now + lag :=
        max_le (hlatest (now, use) (by simp)) (Nat.le_add_right _ _)
      have hrest : ∀ use ∈ rest, max latest now ≤ use.1 + lag := by
        intro use huse
        exact max_le (hlatest use (List.mem_cons_of_mem _ huse)) (hwithin.1 use huse)
      have hremembers := remembers.mono (le_max_left latest now)
      cases use with
      | purge =>
          simp only [admits, answers, step, Log.admitted_cons, Log.addition?, Option.toList_none,
            List.nil_append]
          exact ih (hremembers.sweep hnow) hshort hbounded hrest hwithin.2
      | check client =>
          obtain ⟨hchecked, hstill, hlimit, hwindow⟩ :=
            hremembers.check hnow hmax hshort hbounded client
          have hlater := ih hchecked (hwindow ▸ hshort) (hlimit ▸ hstill) hrest hwithin.2
          simp only [admits, answers, step, Log.admitted_cons]
          rw [hlimit, List.append_assoc] at hlater
          exact hlater

/-! ## Where the limit is passed -/

/-- A client is checked, and checked again by somebody who has read the clock before; another
client is checked a window later, and then the first one by two who have read the clock before. -/
def lateCalls (window lag : Nat) : List (Nat × String) :=
  [(min lag (window - lag), "c"), (0, "c"), (window, "d"), (window - lag, "c"),
    (window - lag, "c")]

theorem within_lateCalls (window lag : Nat) : Within lag (checks (lateCalls window lag)) := by
  simp only [Within, checks, lateCalls, List.map_cons, List.map_nil, List.pairwise_cons,
    List.forall_mem_cons]
  simp
  omega

/-- All are admitted, for the sweep takes the first two instants with it. -/
theorem answers_lateCalls (window lag : Nat) :
    (new 2 window 0).answers (checks (lateCalls window lag)) =
      [some (.ok ()), some (.ok ()), some (.ok ()), some (.ok ()), some (.ok ())] := by
  rcases Nat.eq_zero_or_pos window with rfl | hwindow
  · rw [lateCalls, Nat.zero_sub, Nat.min_zero]
    rfl
  · have hfirst : min lag (window - lag) < window := by omega
    have hlast : window - lag - window = 0 := by omega
    simp [checks, lateCalls, answers, step, check, count, isDue, isLive, bucket, sweep, isActive,
      new, Assoc.get?, Assoc.insert, hwindow, hfirst, hlast]

theorem instants_lateCalls (window lag : Nat) :
    ((new 2 window 0).admits (checks (lateCalls window lag))).instants "c" =
      [min lag (window - lag), 0, window - lag, window - lag] := by
  rw [admits, answers_lateCalls]
  rfl

theorem lt_inInterval_lateCalls {window : Nat} (hlength : length ≠ 0)
    (hlong : window < length + 2 * lag) :
    2 < ((new 2 window 0).admits (checks (lateCalls window lag))).inInterval length
      (min lag (window - lag)) "c" := by
  have hfirst : min lag (window - lag) < min lag (window - lag) + length := by omega
  have hlast : min lag (window - lag) ≤ window - lag ∧
      window - lag < min lag (window - lag) + length := by omega
  rw [Log.inInterval, instants_lateCalls]
  simp only [List.countP_cons, List.countP_nil, hfirst, hlast, le_refl, and_self, decide_true,
    if_true]
  omega

/-! ## The property -/

/-- Let no check lag further than this behind a check before it.  The limit holds of the intervals
of a length, whatever the checks, just when they are shorter than the window by twice the lag; of
intervals as long as the window, just when the checks come in the order of their instants. -/
theorem bounded_iff_of_lag (window lag length : Nat) :
    (∀ limit start calls, (∀ call ∈ calls, start ≤ call.1) → Within lag (checks calls) →
      ∀ client first,
        ((new limit window start).admits (checks calls)).inInterval length first client ≤ limit) ↔
    length = 0 ∨ length + 2 * lag ≤ window := by
  constructor
  · intro hbounded
    by_contra hlong
    rw [not_or, not_le] at hlong
    have hover := lt_inInterval_lateCalls hlong.1 hlong.2
    have hkept := hbounded 2 0 (lateCalls window lag) (by simp) (within_lateCalls window lag) "c"
      (min lag (window - lag))
    omega
  · rintro hlength limit start calls - hwithin client first
    rcases hlength with rfl | hshort
    · rw [Log.inInterval, List.countP_eq_zero.mpr]
      · exact Nat.zero_le limit
      · intro seen _
        simp only [decide_eq_true_eq]
        omega
    · have hempty : Bounded limit length [] := by
        simp [Bounded, Log.inInterval, Log.instants]
      exact (Remembers.new limit window start lag).bounded_admits hshort hempty (checks calls)
        (fun _ _ => Nat.zero_le _) hwithin client first

/-- A check that has read the clock before the window of the first two was over, and comes after it
is over, is admitted as a third one. -/
theorem inInterval_of_late_check :
    ¬ ∀ client first, ((new 2 100 0).admits
      (checks [(0, "c"), (0, "c"), (100, "c"), (60, "c")])).inInterval 100 first client ≤ 2 := by
  intro hbounded
  exact absurd (hbounded "c" 0) (by decide)

end Limiter
end WebApp
