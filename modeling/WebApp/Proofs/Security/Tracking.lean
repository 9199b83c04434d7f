import Mathlib.Tactic
import WebApp.Proofs.Security.SlidingLog

/-!
# The clients that are kept

Clients are dropped in sweeps, and a window after one sweep the next check makes another.  A client
that a sweep has kept asked inside the window that ended with it, and any other client asked since.
So after a check all clients that are kept have asked inside the last two windows.
-/

namespace WebApp
namespace Limiter

/-- The limiter after uses that follow one another. -/
def run (l : Limiter) (uses : List (Nat × Use)) : Limiter :=
  uses.foldl (fun l use => (l.step use.1 use.2).1) l

def caller? (length now : Nat) : Nat × Use → Option String
  | (seen, .check client) => if now < seen + length then some client else none
  | (_, .purge) => none

/-- The clients that asked less than so long ago. -/
def callers (uses : List (Nat × Use)) (length now : Nat) : Finset String :=
  (uses.filterMap (caller? length now)).toFinset

variable {l : Limiter} {uses history : List (Nat × Use)} {latest now : Nat} {client : String}

theorem mem_callers_iff {length : Nat} :
    client ∈ callers uses length now ↔
      ∃ seen, (seen, .check client) ∈ uses ∧ now < seen + length := by
  rw [callers, List.mem_toFinset, List.mem_filterMap]
  constructor
  · rintro ⟨⟨seen, use⟩, hmem, hcaller⟩
    cases use with
    | purge => cases hcaller
    | check asking =>
        rw [caller?, Option.ite_none_right_eq_some, Option.some.injEq] at hcaller
        exact ⟨seen, hcaller.2 ▸ hmem, hcaller.1⟩
  · rintro ⟨seen, hmem, hrecent⟩
    exact ⟨(seen, .check client), hmem, if_pos hrecent⟩

/-- Whoever is kept asked inside the window that ended with the last sweep, or after it. -/
structure Recent (l : Limiter) (uses : List (Nat × Use)) (latest : Nat) : Prop where
  positive : 0 < l.window
  distinct : (l.clients.map Prod.fst).Nodup
  swept : l.lastSweep ≤ latest
  asked : ∀ entry ∈ l.clients, ∀ seen ∈ entry.2, (seen, .check entry.1) ∈ uses
  since : ∀ entry ∈ l.clients, ∃ seen, (seen, .check entry.1) ∈ uses ∧
    l.lastSweep < seen + l.window

namespace Recent

theorem new (limit : Nat) {window : Nat} (hwindow : 0 < window) (start : Nat) :
    Recent (Limiter.new limit window start) [] start where
  positive := hwindow
  distinct := List.nodup_nil
  swept := le_rfl
  asked := by simp [Limiter.new]
  since := by simp [Limiter.new]

theorem mono (recent : Recent l history latest) (hmore : history ⊆ uses) (hlater : latest ≤ now) :
    Recent l uses now where
  positive := recent.positive
  distinct := recent.distinct
  swept := recent.swept.trans hlater
  asked entry hentry seen hseen := hmore (recent.asked entry hentry seen hseen)
  since entry hentry := by
    obtain ⟨seen, hseen, hsince⟩ := recent.since entry hentry
    exact ⟨seen, hmore hseen, hsince⟩

/-- A sweep keeps whoever was admitted inside the window that ends with it. -/
theorem sweep (recent : Recent l uses now) : Recent (l.sweep now).1 uses now where
  positive := recent.positive
  distinct := recent.distinct.sublist (List.filter_sublist.map Prod.fst)
  swept := le_rfl
  asked entry hentry := recent.asked entry (List.mem_of_mem_filter hentry)
  since entry hentry := by
    have hactive := List.of_mem_filter hentry
    rw [isActive] at hactive
    split at hactive
    next seen hlast =>
      have hseen := recent.asked entry (List.mem_of_mem_filter hentry) seen
        (List.mem_of_getLast? hlast)
      refine ⟨seen, hseen, ?_⟩
      simp only [isLive, decide_eq_true_eq] at hactive
      change now < seen + l.window
      omega
    next => cases hactive

theorem asked_of_mem_bucket (recent : Recent l uses latest) :
    ∀ seen ∈ l.bucket client now, (seen, .check client) ∈ uses := by
  intro seen hseen
  have hkept : seen ∈ (Assoc.get? client l.clients).getD [] :=
    (List.dropWhile_sublist _).subset hseen
  cases hget : Assoc.get? client l.clients with
  | none => simp [hget] at hkept
  | some bucket =>
      rw [hget, Option.getD_some] at hkept
      exact recent.asked (client, bucket) (Assoc.mem_of_get? hget) seen hkept

/-- Who is asking now is as recent as can be. -/
theorem insert (recent : Recent l uses now) (hnow : (now, .check client) ∈ uses)
    {bucket : List Nat} (hbucket : ∀ seen ∈ bucket, (seen, .check client) ∈ uses) :
    Recent { l with clients := Assoc.insert client bucket l.clients } uses now where
  positive := recent.positive
  distinct := Assoc.nodup_keys_insert client bucket recent.distinct
  swept := recent.swept
  asked entry hentry := by
    rcases Assoc.eq_or_mem_of_mem_insert hentry with rfl | hold
    · exact hbucket
    · exact recent.asked entry hold
  since entry hentry := by
    rcases Assoc.eq_or_mem_of_mem_insert hentry with rfl | hold
    · have hpositive := recent.positive
      have hswept := recent.swept
      refine ⟨now, hnow, ?_⟩
      change l.lastSweep < now + l.window
      omega
    · exact recent.since entry hold

theorem count (recent : Recent l uses now) (hnow : (now, .check client) ∈ uses) :
    Recent (l.count client now).1 uses now := by
  have hbucket : ∀ seen ∈ l.bucket client now, (seen, Use.check client) ∈ uses :=
    recent.asked_of_mem_bucket
  by_cases hfull : l.limit ≤ (l.bucket client now).length
  · simp only [Limiter.count, if_pos hfull]
    exact recent.insert hnow hbucket
  · simp only [Limiter.count, if_neg hfull]
    apply recent.insert hnow
    intro seen hseen
    rcases List.mem_append.mp hseen with hold | hadmitted
    · exact hbucket seen hold
    · rwa [List.mem_singleton.mp hadmitted]

theorem check (recent : Recent l uses now) (hnow : (now, .check client) ∈ uses) :
    Recent (l.check client now).1 uses now := by
  obtain ⟨swept, hswept, hnext, -⟩ := exists_count_of_check l client now
  rw [hnext]
  rcases hswept with rfl | rfl
  · exact recent.count hnow
  · exact recent.sweep.count hnow

theorem step (recent : Recent l history latest) (hlater : latest ≤ now) (use : Use) :
    Recent (l.step now use).1 (history ++ [(now, use)]) now := by
  have hrecent : Recent l (history ++ [(now, use)]) now :=
    recent.mono (List.subset_append_left _ _) hlater
  cases use with
  | purge => exact hrecent.sweep
  | check client => exact hrecent.check (by simp)

theorem run (recent : Recent l history latest) (hlater : ∀ use ∈ uses, latest ≤ use.1)
    (hsorted : uses.Pairwise fun first second => first.1 ≤ second.1)
    (hlatest : latest ≤ now) (hnow : ∀ use ∈ uses, use.1 ≤ now) :
    Recent (l.run uses) (history ++ uses) now := by
  induction uses generalizing l history latest with
  | nil => exact recent.mono (by simp) hlatest
  | cons use rest ih =>
      rw [List.pairwise_cons] at hsorted
      rw [List.forall_mem_cons] at hlater hnow
      have hrun := ih (recent.step hlater.1 use.2) hsorted.1 hsorted.2 hnow.1 hnow.2
      rwa [List.append_assoc, List.singleton_append] at hrun

/-- The clients that are kept are among those that asked since a window before the last sweep. -/
theorem size_le (recent : Recent l uses latest) {length : Nat}
    (hlength : now + l.window ≤ l.lastSweep + length) :
    l.size ≤ (callers uses length now).card := by
  have hcallers : (l.clients.map Prod.fst).toFinset ⊆ callers uses length now := by
    intro client hclient
    rw [List.mem_toFinset, List.mem_map] at hclient
    obtain ⟨entry, hentry, rfl⟩ := hclient
    obtain ⟨seen, hseen, hsince⟩ := recent.since entry hentry
    exact mem_callers_iff.mpr ⟨seen, hseen, by omega⟩
  calc l.size = (l.clients.map Prod.fst).length := (List.length_map Prod.fst).symm
    _ = (l.clients.map Prod.fst).toFinset.card :=
      (List.toFinset_card_of_nodup recent.distinct).symm
    _ ≤ (callers uses length now).card := Finset.card_le_card hcallers

end Recent

/-! ## After a check -/

theorem lastSweep_count (l : Limiter) (client : String) (now : Nat) :
    (l.count client now).1.lastSweep = l.lastSweep := by
  by_cases hfull : l.limit ≤ (l.bucket client now).length <;> simp [count, hfull]

/-- After a check the last sweep is not a window ago. -/
theorem lt_lastSweep_check (hwindow : 0 < l.window) (client : String) (now : Nat) :
    now < (l.check client now).1.lastSweep + l.window := by
  by_cases hdue : l.isDue now = true
  · have hnext : (l.check client now).1 = ((l.sweep now).1.count client now).1 := by
      simp [check, hdue]
    rw [hnext, lastSweep_count]
    change now < now + l.window
    omega
  · have hnext : (l.check client now).1 = (l.count client now).1 := by
      simp [check, hdue]
    rw [hnext, lastSweep_count]
    simp only [isDue, isLive, Bool.not_eq_true', decide_eq_false_iff_not, not_not] at hdue
    omega

theorem window_step (l : Limiter) (now : Nat) (use : Use) :
    (l.step now use).1.window = l.window := by
  cases use with
  | purge => rfl
  | check client => exact (settings_check l client now).2

theorem window_run (l : Limiter) (uses : List (Nat × Use)) : (l.run uses).window = l.window := by
  induction uses generalizing l with
  | nil => rfl
  | cons use rest ih => exact (ih _).trans (window_step l use.1 use.2)

theorem run_append (l : Limiter) (uses more : List (Nat × Use)) :
    l.run (uses ++ more) = (l.run uses).run more :=
  List.foldl_append

/-- Let a limiter be used from its start on, while the clock does not go back.  After a check every
client that is kept has asked less than two windows ago, so there are at most as many as have. -/
theorem size_run_le_callers (limit : Nat) {window start now : Nat} {client : String}
    {before : List (Nat × Use)} (hwindow : 0 < window)
    (hstart : ∀ use ∈ before ++ [(now, Use.check client)], start ≤ use.1)
    (hsorted : (before ++ [(now, Use.check client)]).Pairwise fun first second =>
      first.1 ≤ second.1) :
    let uses := before ++ [(now, Use.check client)]
    let l := (new limit window start).run uses
    (∀ entry ∈ l.clients, ∃ seen, (seen, .check entry.1) ∈ uses ∧ now < seen + 2 * window) ∧
    l.size ≤ (callers uses (2 * window) now).card := by
  intro uses l
  have hnow : ∀ use ∈ uses, use.1 ≤ now := by
    intro use huse
    rcases List.mem_append.mp huse with hbefore | hlast
    · exact (List.pairwise_append.mp hsorted).2.2 use hbefore _ List.mem_cons_self
    · rw [List.mem_singleton.mp hlast]
  have hrecent : Recent l uses now :=
    (Recent.new limit hwindow start).run hstart hsorted
      (hstart (now, .check client) (by simp)) hnow
  have hwindows : l.window = window := window_run (new limit window start) uses
  have hcheck : l = (((new limit window start).run before).check client now).1 :=
    run_append _ before [(now, .check client)]
  have hswept : now < l.lastSweep + window := by
    have hbefore : ((new limit window start).run before).window = window := window_run _ before
    have hlast := lt_lastSweep_check (hbefore ▸ hwindow) client now
    rwa [← hcheck, hbefore] at hlast
  constructor
  · intro entry hentry
    obtain ⟨seen, hseen, hsince⟩ := hrecent.since entry hentry
    exact ⟨seen, hseen, by omega⟩
  · apply hrecent.size_le
    omega

/-- A client that asked more than a window ago is still kept, one that asked more than two windows
ago is not. -/
theorem size_run_le_callers_visits :
    let before := [(10, .check "a"), (120, .check "b"), (150, .check "c"), (160, .purge),
      (200, .check "c")]
    let uses : List (Nat × Use) := before ++ [(225, .check "d")]
    0 < 100 ∧ (∀ use ∈ uses, 0 ≤ use.1) ∧
    uses.Pairwise (fun first second => first.1 ≤ second.1) ∧
    ((new 2 100 0).run uses).size ≤ (callers uses 200 225).card ∧
    ((new 2 100 0).run uses).size = 3 ∧ (callers uses 200 225).card = 3 := by
  intro before uses
  have hstart : ∀ use ∈ uses, 0 ≤ use.1 := fun _ _ => Nat.zero_le _
  have hsorted : uses.Pairwise (fun first second => first.1 ≤ second.1) := by decide
  exact ⟨by decide, hstart, hsorted, (size_run_le_callers 2 (by decide) hstart hsorted).2,
    by decide, by decide⟩

end Limiter
end WebApp
