import Mathlib.Algebra.Order.Floor.Div
import Mathlib.Tactic
import WebApp.Proofs.Number.Decimal
import WebApp.Proofs.Security.SlidingLog

/-!
# Waiting as long as told

A refusal tells the client for how many seconds to wait: for the window, rounded up.  All that was
admitted until the refusal is outside the window by then.  So a client that had nothing admitted
while it waited is admitted the first time that it asks again, however often it asked too early and
whatever other clients did.
-/

namespace WebApp
namespace Limiter

/-! ## The time that is told -/

theorem retryAfter_eq {l : Limiter} (hfits : l.window ⌈/⌉ 1000000000 < 2 ^ 64) :
    l.retryAfter = l.window ⌈/⌉ 1000000000 := by
  have hceil : l.window / 1000000000 + (if l.window % 1000000000 > 0 then 1 else 0) =
      l.window ⌈/⌉ 1000000000 := by
    rw [Nat.ceilDiv_eq_add_pred_div]
    split <;> omega
  rw [retryAfter, hceil]
  exact Nat.mod_eq_of_lt hfits

theorem window_le_retryAfter {l : Limiter} (hfits : l.window ⌈/⌉ 1000000000 < 2 ^ 64) :
    l.window ≤ l.retryAfter * 1000000000 := by
  rw [retryAfter_eq hfits, Nat.ceilDiv_eq_add_pred_div]
  omega

/-- The refusal tells this time and no other. -/
theorem eq_retryAfter_of_rejection {l : Limiter} {seconds : Nat}
    (hretry : l.rejection.headers.get? "Retry-After" = some (toString seconds)) :
    seconds = l.retryAfter := by
  have htold : l.rejection.headers.get? "Retry-After" = some (toString l.retryAfter) := by
    simp [rejection, HttpError.withHeader, HttpError.new, Headers.set, Headers.setEntries,
      Headers.get?, Headers.named, Text.sameFolded]
  rw [htold, Option.some.injEq] at hretry
  have hread : Text.decimal? (Nat.repr l.retryAfter) = Text.decimal? (Nat.repr seconds) :=
    congrArg Text.decimal? hretry
  rw [Text.decimal?_repr, Text.decimal?_repr, Option.some.injEq] at hread
  exact hread.symm

/-! ## Single answers of the log -/

theorem le_of_sorted {uses : List (Nat × Use)}
    (hsorted : uses.Pairwise fun first second => first.1 ≤ second.1) {i k : Nat}
    {first second : Nat × Use} (hfirst : uses[k]? = some first) (hsecond : uses[i]? = some second)
    (hbefore : k ≤ i) : first.1 ≤ second.1 := by
  obtain ⟨hk, rfl⟩ := List.getElem?_eq_some_iff.mp hfirst
  obtain ⟨hi, rfl⟩ := List.getElem?_eq_some_iff.mp hsecond
  rcases Nat.lt_or_eq_of_le hbefore with hlt | rfl
  · exact List.pairwise_iff_getElem.mp hsorted k i hk hi hlt
  · exact le_rfl

namespace Log

variable {limit window : Nat} {refusal : HttpError} {log : Log} {uses : List (Nat × Use)}
  {now : Nat} {client : String}

theorem answers_take (log : Log) (uses : List (Nat × Use)) (n : Nat) :
    log.answers limit window refusal (uses.take n) =
      (log.answers limit window refusal uses).take n := by
  induction uses generalizing log n with
  | nil => simp [answers]
  | cons use rest ih =>
      obtain ⟨now, use⟩ := use
      cases n with
      | zero => simp [answers]
      | succ n => cases use <;> simp [answers, ih]

/-- A check is answered by what was admitted before it. -/
theorem getElem?_answers {n : Nat} (huse : uses[n]? = some (now, .check client)) :
    (log.answers limit window refusal uses)[n]? =
      some (some ((log ++ admitted (uses.take n)
        ((log.answers limit window refusal uses).take n)).check limit window refusal now
          client).2) := by
  obtain ⟨hn, hget⟩ := List.getElem?_eq_some_iff.mp huse
  have hsplit : uses.take n ++ (now, .check client) :: uses.drop (n + 1) = uses := by
    rw [← hget, ← List.drop_eq_getElem_cons hn, List.take_append_drop]
  have hlength : (log.answers limit window refusal (uses.take n)).length = n := by
    rw [length_answers, List.length_take, Nat.min_eq_left hn.le]
  have hanswers : log.answers limit window refusal uses = _ := hsplit ▸
    log.answers_append (uses.take n) ((now, .check client) :: uses.drop (n + 1))
  rw [← answers_take, hanswers, List.getElem?_append_right hlength.le, hlength, Nat.sub_self]
  rfl

/-- Every answer is an admission or the one refusal. -/
theorem eq_refusal_of_answers {n : Nat} {e : HttpError}
    (huse : uses[n]? = some (now, .check client))
    (hrefused : (log.answers limit window refusal uses)[n]? = some (some (.error e))) :
    e = refusal := by
  rw [getElem?_answers huse, Option.some.injEq, Option.some.injEq, check] at hrefused
  split at hrefused
  next => cases hrefused
  next => exact (Except.error.inj hrefused).symm

theorem exists_of_mem_instants {answers : List (Option (Except HttpError Unit))} {seen : Nat}
    (hseen : seen ∈ (admitted uses answers).instants client) :
    ∃ k : Nat, uses[k]? = some (seen, .check client) ∧ answers[k]? = some (some (.ok ())) := by
  simp only [instants, admitted, List.mem_map, List.mem_filter, List.mem_filterMap,
    decide_eq_true_eq] at hseen
  obtain ⟨entry, ⟨⟨⟨use, answer⟩, hmem, hentry⟩, hclient⟩, hinstant⟩ := hseen
  obtain ⟨k, hk⟩ := List.mem_iff_getElem?.mp hmem
  rw [List.getElem?_zip_eq_some] at hk
  refine ⟨k, ?_⟩
  unfold addition? at hentry
  split at hentry
  next now asking heq =>
    cases heq
    cases hentry
    subst hclient hinstant
    exact hk
  next => cases hentry

theorem live_eq_zero (hdead : ∀ seen ∈ log.instants client, seen + window ≤ now) :
    log.live window now client = 0 := by
  rw [live, List.countP_eq_zero]
  intro seen hseen
  have := hdead seen hseen
  simp only [decide_eq_true_eq]
  omega

end Log

/-! ## The property -/

/-- A client was refused and told to wait for some seconds.  Of what it asked later, but before that
time was over, nothing was admitted.  Then it is admitted the first time that it asks afterwards. -/
theorem answers_ok_of_waited (start : Nat) {limit window : Nat} (hlimit : 1 ≤ limit)
    (hfits : window ⌈/⌉ 1000000000 < 2 ^ 64) {uses : List (Nat × Use)}
    (hsorted : uses.Pairwise fun first second => first.1 ≤ second.1)
    {client : String} {i j asked later seconds : Nat} {e : HttpError}
    (hcheck : uses[i]? = some (asked, .check client))
    (hrefused : ((new limit window start).answers uses)[i]? = some (some (.error e)))
    (hretry : e.headers.get? "Retry-After" = some (toString seconds))
    (hnone : ∀ k now : Nat, uses[k]? = some (now, .check client) → asked < now →
      now < asked + seconds * 1000000000 →
      ((new limit window start).answers uses)[k]? ≠ some (some (.ok ())))
    (hlater : uses[j]? = some (later, .check client))
    (hwaited : asked + seconds * 1000000000 ≤ later)
    (hfirst : ∀ k now : Nat, i < k → k < j → uses[k]? = some (now, .check client) →
      now < asked + seconds * 1000000000) :
    ((new limit window start).answers uses)[j]? = some (some (.ok ())) := by
  have hlog : (new limit window start).answers uses =
      Log.answers limit window (new limit window start).rejection [] uses :=
    answers_eq (Tracks.new limit window start) uses (fun _ _ => Nat.zero_le _) hsorted
  rw [hlog] at hrefused hnone ⊢
  rw [Log.eq_refusal_of_answers hcheck hrefused] at hretry
  have hwindow : window ≤ seconds * 1000000000 := by
    rw [eq_retryAfter_of_rejection hretry]
    exact window_le_retryAfter (l := new limit window start) hfits
  rw [Log.getElem?_answers hlater, List.nil_append]
  have hdead : ∀ seen ∈ Log.instants (Log.admitted (uses.take j)
      ((Log.answers limit window (new limit window start).rejection [] uses).take j)) client,
      seen + window ≤ later := by
    intro seen hseen
    obtain ⟨k, huse, hadmitted⟩ := Log.exists_of_mem_instants hseen
    rw [List.getElem?_take] at huse hadmitted
    split at huse
    next hk =>
      rw [if_pos hk] at hadmitted
      -- What was admitted, was so before the client was refused or in the same instant.
      have hpast : seen ≤ asked := by
        rcases Nat.lt_or_ge i k with hbehind | hbefore
        · by_contra hwaiting
          exact hnone k seen huse (by omega) (hfirst k seen hbehind hk huse) hadmitted
        · exact le_of_sorted hsorted huse hcheck hbefore
      omega
    next => cases huse
  rw [Log.check, Log.live_eq_zero hdead, if_pos (by omega)]

/-- One request in one and a half seconds. -/
def sparing : Limiter := new 1 1500000000 0

/-- A client is told to wait for two seconds, asks too early once more, and then waits. -/
def impatient : List (Nat × Use) :=
  [(0, .check "c"), (1, .check "c"), (300000000, .check "d"), (1200000000, .check "c"),
    (1300000000, .purge), (2000000001, .check "c")]

theorem answers_ok_of_waited_impatient :
    sparing.window ⌈/⌉ 1000000000 < 2 ^ 64 ∧
    impatient.Pairwise (fun first second => first.1 ≤ second.1) ∧
    (sparing.answers impatient).take 5 =
      [some (.ok ()), some (.error sparing.rejection), some (.ok ()),
        some (.error sparing.rejection), none] ∧
    sparing.rejection.headers.get? "Retry-After" = some (toString 2) ∧
    (sparing.answers impatient)[5]? = some (some (.ok ())) := by
  have hfits : sparing.window ⌈/⌉ 1000000000 < 2 ^ 64 := by
    rw [Nat.ceilDiv_eq_add_pred_div]
    decide
  have hsorted : impatient.Pairwise (fun first second => first.1 ≤ second.1) := by decide
  have hrefused : (sparing.answers impatient)[1]? = some (some (.error sparing.rejection)) := rfl
  have hearly : (sparing.answers impatient)[3]? = some (some (.error sparing.rejection)) := rfl
  have hretry : sparing.rejection.headers.get? "Retry-After" = some (toString 2) := by decide
  have hcheck : impatient[1]? = some (1, .check "c") := rfl
  have hlater : impatient[5]? = some (2000000001, .check "c") := rfl
  have hasks : ∀ k now : Nat, impatient[k]? = some (now, .check "c") →
      (k = 3 ∧ now = 1200000000) ∨ k ≤ 1 ∧ now ≤ 1 ∨ k = 5 ∧ now = 2000000001 := by
    intro k now huse
    rcases k with _ | _ | _ | _ | _ | _ | k <;> simp [impatient] at huse <;> omega
  refine ⟨hfits, hsorted, rfl, hretry, ?_⟩
  refine answers_ok_of_waited 0 le_rfl hfits hsorted hcheck hrefused hretry ?_ hlater ?_ ?_
  · intro k now huse hafter hbefore
    have hthird : k = 3 := by
      rcases hasks k now huse with hthird | hold | hlast <;> omega
    rw [hthird]
    exact fun hadmitted => nomatch hearly.symm.trans hadmitted
  · decide
  · intro k now hbehind hbefore huse
    rcases hasks k now huse with hthird | hold | hlast <;> omega

end Limiter
end WebApp
