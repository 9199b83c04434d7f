import Mathlib.Tactic
import WebApp.Proofs.Assoc
import WebApp.Security.Limiter

/-!
# The limiter as a sliding log

The plain sliding log keeps every admitted check for ever and counts those that are inside the
window.  The limiter keeps for each client only an end of what the log holds, and forgets idle
clients altogether; what it has dropped is outside every window that is still to come.  So both
give the same answers.  Uses that come a little out of order cost the limiter a little more of the
log; how much is said first, with the lag, and uses in order are those without one.
-/

namespace WebApp
namespace Limiter

/-- What is asked of a limiter. -/
inductive Use where
  | check (client : String)
  | purge

/-- One use at an instant.  Only a check has an answer. -/
def step (l : Limiter) (now : Nat) : Use → Limiter × Option (Except HttpError Unit)
  | .check client =>
    let (l, _, answer) := l.check client now
    (l, some answer)
  | .purge => ((l.sweep now).1, none)

def answers (l : Limiter) : List (Nat × Use) → List (Option (Except HttpError Unit))
  | [] => []
  | (now, use) :: rest =>
    let (l, answer) := l.step now use
    answer :: l.answers rest

/-- The admitted checks, with their clients and instants, in order. -/
abbrev Log := List (String × Nat)

namespace Log

def instants (log : Log) (client : String) : List Nat :=
  (log.filter fun entry => entry.1 = client).map Prod.snd

/-- How many instants of a client are inside the window that ends now. -/
def live (log : Log) (window now : Nat) (client : String) : Nat :=
  (log.instants client).countP fun seen => now - seen < window

/-- The log after a check, and the answer. -/
def check (log : Log) (limit window : Nat) (refusal : HttpError) (now : Nat) (client : String) :
    Log × Except HttpError Unit :=
  if log.live window now client < limit then (log ++ [(client, now)], .ok ())
  else (log, .error refusal)

/-- The answers of the plain log, which never drops anything. -/
def answers (limit window : Nat) (refusal : HttpError) (log : Log) :
    List (Nat × Use) → List (Option (Except HttpError Unit))
  | [] => []
  | (now, .check client) :: rest =>
    let (log, answer) := log.check limit window refusal now client
    some answer :: log.answers limit window refusal rest
  | (_, .purge) :: rest => none :: log.answers limit window refusal rest

/-- What the answers to uses add to the log. -/
def addition? : (Nat × Use) × Option (Except HttpError Unit) → Option (String × Nat)
  | ((now, .check client), some (.ok ())) => some (client, now)
  | _ => none

def admitted (uses : List (Nat × Use)) (answers : List (Option (Except HttpError Unit))) : Log :=
  (uses.zip answers).filterMap addition?

/-- How many instants of a client are in the interval of so long that begins at an instant. -/
def inInterval (log : Log) (window first : Nat) (client : String) : Nat :=
  (log.instants client).countP fun seen => first ≤ seen ∧ seen < first + window

@[simp] theorem instants_append_self (log : Log) (client : String) (now : Nat) :
    instants (log ++ [(client, now)]) client = log.instants client ++ [now] := by
  simp [instants]

theorem instants_append_of_ne {client other : String} (hother : other ≠ client) (log : Log)
    (now : Nat) : instants (log ++ [(client, now)]) other = log.instants other := by
  simp [instants, Ne.symm hother]

end Log

/-! ## The kept end of the log -/

variable {l : Limiter} {log : Log} {now later latest lag : Nat} {client : String}

/-- The kept instants of a client, the dead ones included. -/
def kept (l : Limiter) (client : String) : List Nat :=
  (Assoc.get? client l.clients).getD []

/-- A client's own bucket after a count, and the buckets of the others. -/
theorem kept_insert (bucket : List Nat) (client other : String) :
    kept { l with clients := Assoc.insert client bucket l.clients } other =
      if other = client then bucket else l.kept other := by
  by_cases hother : other = client
  · simp [kept, hother]
  · simp [kept, hother, Assoc.get?_insert_of_ne hother]

/-- The limiter keeps an end of each client's log.  The log may be out of order by the lag, and so
far may what was dropped reach into the window that ends at the latest instant. -/
structure Remembers (l : Limiter) (log : Log) (latest lag : Nat) : Prop where
  distinct : (l.clients.map Prod.fst).Nodup
  ordered : ∀ client, (log.instants client).Pairwise fun earlier later => earlier ≤ later + lag
  past : ∀ client, ∀ seen ∈ log.instants client, seen ≤ latest
  suffix : ∀ client, ∃ dropped, log.instants client = dropped ++ l.kept client ∧
    ∀ seen ∈ dropped, seen + l.window ≤ latest + lag

namespace Remembers

theorem new (limit window start lag : Nat) :
    Remembers (Limiter.new limit window start) [] 0 lag where
  distinct := by simp [Limiter.new]
  ordered := by simp [Log.instants]
  past := by simp [Log.instants]
  suffix client := ⟨[], by simp [Log.instants, kept, Limiter.new, Assoc.get?]⟩

theorem mono (remembers : Remembers l log latest lag) {later : Nat} (hlater : latest ≤ later) :
    Remembers l log later lag where
  distinct := remembers.distinct
  ordered := remembers.ordered
  past client seen hseen := (remembers.past client seen hseen).trans hlater
  suffix client := by
    obtain ⟨dropped, hlog, hdead⟩ := remembers.suffix client
    refine ⟨dropped, hlog, fun seen hseen => ?_⟩
    have := hdead seen hseen
    omega

/-- An instant of the log that is outside the window now is so, up to the lag, for good. -/
theorem add_window_le (remembers : Remembers l log latest lag) (hnow : now ≤ latest)
    {seen : Nat} (hseen : seen ∈ log.instants client) (hdead : l.isLive now seen = false) :
    seen + l.window ≤ latest := by
  have hpast := remembers.past client seen hseen
  simp only [isLive, decide_eq_false_iff_not] at hdead
  omega

/-- The instants of an inactive client came before its last one. -/
theorem add_window_le_of_not_isActive (remembers : Remembers l log latest lag)
    (hnow : now ≤ latest) (hidle : l.isActive now (l.kept client) = false) :
    ∀ seen ∈ l.kept client, seen + l.window ≤ latest + lag := by
  obtain ⟨dropped, hlog, -⟩ := remembers.suffix client
  have hordered := remembers.ordered client
  rcases List.eq_nil_or_concat (l.kept client) with hnone | ⟨front, last, hkept⟩
  · simp [hnone]
  · rw [hkept, List.concat_eq_append] at hlog hidle ⊢
    have hmem : last ∈ log.instants client := by simp [hlog]
    have hdead : l.isLive now last = false := by simpa [isActive] using hidle
    have hlast := remembers.add_window_le hnow hmem hdead
    intro seen hseen
    rcases List.mem_append.mp hseen with hfront | hsame
    · rw [hlog, List.pairwise_append, List.pairwise_append] at hordered
      have hbefore := hordered.2.1.2.2 seen hfront last (by simp)
      omega
    · rw [List.mem_singleton] at hsame
      omega

theorem sweep (remembers : Remembers l log latest lag) (hnow : now ≤ latest) :
    Remembers (l.sweep now).1 log latest lag where
  distinct := remembers.distinct.sublist (List.filter_sublist.map Prod.fst)
  ordered := remembers.ordered
  past := remembers.past
  suffix client := by
    obtain ⟨dropped, hlog, hdead⟩ := remembers.suffix client
    have hwindow : (l.sweep now).1.window = l.window := rfl
    have hget : (l.sweep now).1.kept client =
        ((Assoc.get? client l.clients).filter (l.isActive now)).getD [] := by
      simp only [Limiter.sweep, kept, Assoc.get?_filter _ _ remembers.distinct]
    rw [hwindow, hget]
    by_cases hactive : l.isActive now (l.kept client) = true
    · refine ⟨dropped, ?_, hdead⟩
      rw [hlog, kept]
      cases hbucket : Assoc.get? client l.clients with
      | none => rfl
      | some bucket =>
          rw [kept, hbucket, Option.getD_some] at hactive
          simp [Option.filter, hactive]
    · -- The whole bucket of the client is gone.
      rw [Bool.not_eq_true] at hactive
      have hgone : ((Assoc.get? client l.clients).filter (l.isActive now)).getD [] = [] := by
        cases hbucket : Assoc.get? client l.clients with
        | none => rfl
        | some bucket =>
            rw [kept, hbucket, Option.getD_some] at hactive
            simp [Option.filter, hactive]
      refine ⟨log.instants client, by rw [hgone, List.append_nil], ?_⟩
      intro seen hseen
      rw [hlog, List.mem_append] at hseen
      rcases hseen with hold | hkept
      · exact hdead seen hold
      · exact remembers.add_window_le_of_not_isActive hnow hactive seen hkept

/-- A bucket that is cut to what is live from the front on is still an end of the log. -/
theorem cut (remembers : Remembers l log latest lag) (hnow : now ≤ latest) (client : String) :
    ∃ dropped, log.instants client = dropped ++ l.bucket client now ∧
      ∀ seen ∈ dropped, seen + l.window ≤ latest + lag := by
  obtain ⟨dropped, hlog, hdead⟩ := remembers.suffix client
  have hsplit : (l.kept client).takeWhile (fun seen => !l.isLive now seen) ++
      l.bucket client now = l.kept client := List.takeWhile_append_dropWhile
  refine ⟨dropped ++ (l.kept client).takeWhile fun seen => !l.isLive now seen, ?_, ?_⟩
  · rw [hlog, List.append_assoc, hsplit]
  · intro seen hseen
    rcases List.mem_append.mp hseen with hold | hcut
    · exact hdead seen hold
    · have hmem : seen ∈ log.instants client := by
        rw [hlog]
        exact List.mem_append_right _ ((List.takeWhile_sublist _).subset hcut)
      have hlive : l.isLive now seen = false := by
        simpa using List.all_eq_true.mp List.all_takeWhile seen hcut
      have := remembers.add_window_le hnow hmem hlive
      omega

theorem refuse (remembers : Remembers l log latest lag) (hnow : now ≤ latest) (client : String) :
    Remembers { l with clients := Assoc.insert client (l.bucket client now) l.clients } log latest
      lag where
  distinct := Assoc.nodup_keys_insert client _ remembers.distinct
  ordered := remembers.ordered
  past := remembers.past
  suffix other := by
    rw [kept_insert]
    by_cases hother : other = client
    · rw [if_pos hother, hother]
      exact remembers.cut hnow client
    · rw [if_neg hother]
      exact remembers.suffix other

theorem accept (remembers : Remembers l log latest lag) (hnow : now ≤ latest)
    (hlatest : latest ≤ now + lag) (client : String) :
    Remembers { l with clients := Assoc.insert client (l.bucket client now ++ [now]) l.clients }
      (log ++ [(client, now)]) latest lag where
  distinct := Assoc.nodup_keys_insert client _ remembers.distinct
  ordered other := by
    by_cases hother : other = client
    · rw [hother, Log.instants_append_self, List.pairwise_append]
      refine ⟨remembers.ordered client, List.pairwise_singleton _ _, ?_⟩
      intro seen hseen last hlast
      rw [List.mem_singleton.mp hlast]
      exact (remembers.past client seen hseen).trans hlatest
    · rw [Log.instants_append_of_ne hother]
      exact remembers.ordered other
  past other seen hseen := by
    by_cases hother : other = client
    · rw [hother, Log.instants_append_self, List.mem_append, List.mem_singleton] at hseen
      rcases hseen with hseen | rfl
      · exact remembers.past client seen hseen
      · exact hnow
    · rw [Log.instants_append_of_ne hother] at hseen
      exact remembers.past other seen hseen
  suffix other := by
    rw [kept_insert]
    by_cases hother : other = client
    · obtain ⟨dropped, hlog, hdead⟩ := remembers.cut hnow client
      refine ⟨dropped, ?_, hdead⟩
      rw [if_pos hother, hother, Log.instants_append_self, hlog, List.append_assoc]
    · rw [if_neg hother, Log.instants_append_of_ne hother]
      exact remembers.suffix other

end Remembers

/-! ## Uses in order -/

/-- The limiter keeps an end of each client's log, and what it has dropped is dead. -/
structure Tracks (l : Limiter) (log : Log) (now : Nat) : Prop where
  distinct : (l.clients.map Prod.fst).Nodup
  sorted : ∀ client, (log.instants client).Pairwise (· ≤ ·)
  past : ∀ client, ∀ seen ∈ log.instants client, seen ≤ now
  suffix : ∀ client, ∃ dropped, log.instants client = dropped ++ l.kept client ∧
    ∀ seen ∈ dropped, l.isLive now seen = false

theorem isLive_of_le {seen seen' : Nat} (hseen : seen ≤ seen')
    (hlive : l.isLive now seen = true) : l.isLive now seen' = true := by
  simp only [isLive, decide_eq_true_eq] at hlive ⊢
  omega

/-- In a sorted list the dead instants come first. -/
theorem dropWhile_dead {seen : List Nat} (hsorted : seen.Pairwise (· ≤ ·)) :
    (seen.dropWhile fun seen => !l.isLive now seen) = seen.filter (l.isLive now) := by
  induction seen with
  | nil => rfl
  | cons first rest ih =>
      rw [List.pairwise_cons] at hsorted
      by_cases hlive : l.isLive now first = true
      · have hall : ∀ seen ∈ first :: rest, l.isLive now seen = true := by
          intro seen hseen
          rcases List.mem_cons.mp hseen with rfl | hseen
          · exact hlive
          · exact isLive_of_le (hsorted.1 seen hseen) hlive
        rw [List.filter_eq_self.mpr hall, List.dropWhile_cons_of_neg (by simp [hlive])]
      · simp [hlive, ih hsorted.2]

/-- To keep in step with uses in order is to remember them without a lag. -/
theorem tracks_iff : Tracks l log now ↔ Remembers l log now 0 := by
  have hdead : ∀ seen, seen ≤ now → (l.isLive now seen = false ↔ seen + l.window ≤ now + 0) := by
    intro seen hseen
    simp only [isLive, decide_eq_false_iff_not]
    omega
  constructor
  · intro tracks
    refine ⟨tracks.distinct, tracks.sorted, tracks.past, fun client => ?_⟩
    obtain ⟨dropped, hlog, hdropped⟩ := tracks.suffix client
    refine ⟨dropped, hlog, fun seen hseen => (hdead seen ?_).mp (hdropped seen hseen)⟩
    exact tracks.past client seen (hlog ▸ List.mem_append_left _ hseen)
  · intro remembers
    refine ⟨remembers.distinct, remembers.ordered, remembers.past, fun client => ?_⟩
    obtain ⟨dropped, hlog, hdropped⟩ := remembers.suffix client
    refine ⟨dropped, hlog, fun seen hseen => (hdead seen ?_).mpr (hdropped seen hseen)⟩
    exact remembers.past client seen (hlog ▸ List.mem_append_left _ hseen)

namespace Tracks

theorem new (limit window start : Nat) : Tracks (Limiter.new limit window start) [] 0 :=
  tracks_iff.mpr (Remembers.new limit window start 0)

theorem sorted_kept (tracks : Tracks l log now) (client : String) :
    (l.kept client).Pairwise (· ≤ ·) := by
  obtain ⟨dropped, hlog, -⟩ := tracks.suffix client
  have hsorted := tracks.sorted client
  rw [hlog, List.pairwise_append] at hsorted
  exact hsorted.2.1

theorem mono (tracks : Tracks l log now) (hlater : now ≤ later) : Tracks l log later :=
  tracks_iff.mpr ((tracks_iff.mp tracks).mono hlater)

/-- The bucket of a client is what is live in its log. -/
theorem bucket_eq (tracks : Tracks l log now) (client : String) :
    l.bucket client now = (log.instants client).filter (l.isLive now) := by
  obtain ⟨dropped, hlog, hdead⟩ := tracks.suffix client
  have hnone : dropped.filter (l.isLive now) = [] := by
    rw [List.filter_eq_nil_iff]
    intro seen hseen
    simp [hdead seen hseen]
  have hbucket : l.bucket client now =
      (l.kept client).dropWhile fun seen => !l.isLive now seen := rfl
  rw [hbucket, dropWhile_dead (tracks.sorted_kept client), hlog, List.filter_append, hnone,
    List.nil_append]

theorem length_bucket (tracks : Tracks l log now) (client : String) :
    (l.bucket client now).length = log.live l.window now client := by
  rw [tracks.bucket_eq, Log.live, List.countP_eq_length_filter]
  rfl

theorem sweep (tracks : Tracks l log now) : Tracks (l.sweep now).1 log now :=
  tracks_iff.mpr ((tracks_iff.mp tracks).sweep le_rfl)

theorem refuse (tracks : Tracks l log now) (client : String) :
    Tracks { l with clients := Assoc.insert client (l.bucket client now) l.clients } log now :=
  tracks_iff.mpr ((tracks_iff.mp tracks).refuse le_rfl client)

theorem accept (tracks : Tracks l log now) (client : String) :
    Tracks { l with clients := Assoc.insert client (l.bucket client now ++ [now]) l.clients }
      (log ++ [(client, now)]) now :=
  tracks_iff.mpr ((tracks_iff.mp tracks).accept le_rfl le_rfl client)

/-- A count answers as the plain log, and both keep in step. -/
theorem count (tracks : Tracks l log now) (client : String) :
    (l.count client now).2 = (log.check l.limit l.window l.rejection now client).2 ∧
      Tracks (l.count client now).1 (log.check l.limit l.window l.rejection now client).1 now := by
  have hlength := tracks.length_bucket client
  by_cases hfull : l.limit ≤ (l.bucket client now).length
  · have hlog : ¬ log.live l.window now client < l.limit := by omega
    simp only [Limiter.count, Log.check, if_pos hfull, if_neg hlog]
    exact ⟨trivial, tracks.refuse client⟩
  · have hlog : log.live l.window now client < l.limit := by omega
    simp only [Limiter.count, Log.check, if_neg hfull, if_pos hlog]
    exact ⟨trivial, tracks.accept client⟩

end Tracks

/-! ## Runs -/

theorem settings_count (l : Limiter) (client : String) (now : Nat) :
    (l.count client now).1.limit = l.limit ∧ (l.count client now).1.window = l.window := by
  by_cases hfull : l.limit ≤ (l.bucket client now).length <;> simp [count, hfull]

theorem rejection_of_window {l l' : Limiter} (hwindow : l'.window = l.window) :
    l'.rejection = l.rejection := by
  simp only [rejection, retryAfter, hwindow]

/-- A check counts in the limiter as it is, or as a sweep has left it. -/
theorem exists_count_of_check (l : Limiter) (client : String) (now : Nat) :
    ∃ swept, (swept = l ∨ swept = (l.sweep now).1) ∧
      (l.check client now).1 = (swept.count client now).1 ∧
      (l.check client now).2.2 = (swept.count client now).2 := by
  by_cases hdue : l.isDue now = true
  · exact ⟨(l.sweep now).1, .inr rfl, by simp [check, hdue]⟩
  · exact ⟨l, .inl rfl, by simp [check, hdue]⟩

theorem settings_check (l : Limiter) (client : String) (now : Nat) :
    (l.check client now).1.limit = l.limit ∧ (l.check client now).1.window = l.window := by
  obtain ⟨swept, hswept, hnext, -⟩ := exists_count_of_check l client now
  rw [hnext]
  rcases hswept with rfl | rfl <;> exact settings_count _ client now

/-- A check answers as the plain log, whether or not it sweeps, and both keep in step. -/
theorem check_spec (tracks : Tracks l log now) (client : String) :
    (l.check client now).2.2 = (log.check l.limit l.window l.rejection now client).2 ∧
    Tracks (l.check client now).1 (log.check l.limit l.window l.rejection now client).1 now ∧
    (l.check client now).1.limit = l.limit ∧ (l.check client now).1.window = l.window := by
  have hsettings := settings_check l client now
  obtain ⟨swept, hswept, hnext, hanswer⟩ := exists_count_of_check l client now
  rw [hnext] at hsettings ⊢
  rw [hanswer]
  rcases hswept with rfl | rfl
  · obtain ⟨hcounted, htracks⟩ := tracks.count client
    exact ⟨hcounted, htracks, hsettings⟩
  · obtain ⟨hcounted, htracks⟩ := tracks.sweep.count client
    exact ⟨hcounted, htracks, hsettings⟩

/-- As long as the clock does not go back, the limiter answers as the plain log. -/
theorem answers_eq (tracks : Tracks l log now) (uses : List (Nat × Use))
    (hlater : ∀ use ∈ uses, now ≤ use.1) (hsorted : uses.Pairwise fun first second =>
      first.1 ≤ second.1) :
    l.answers uses = log.answers l.limit l.window l.rejection uses := by
  induction uses generalizing l log now with
  | nil => rfl
  | cons use rest ih =>
      obtain ⟨instant, use⟩ := use
      rw [List.pairwise_cons] at hsorted
      have htracks := tracks.mono (hlater (instant, use) (by simp))
      cases use with
      | purge =>
          simp only [answers, step, Log.answers]
          rw [ih htracks.sweep hsorted.1 hsorted.2]
          rfl
      | check client =>
          obtain ⟨hanswer, hstep, hlimit, hwindow⟩ := check_spec htracks client
          simp only [answers, step, Log.answers]
          rw [ih hstep hsorted.1 hsorted.2, hanswer, hlimit, hwindow,
            rejection_of_window hwindow]

namespace Log

variable {limit window : Nat} {refusal : HttpError}

/-- A check adds to the log what its answer says. -/
theorem check_fst (log : Log) (now : Nat) (client : String) :
    (log.check limit window refusal now client).1 = log ++
      (addition? ((now, .check client),
        some (log.check limit window refusal now client).2)).toList := by
  by_cases hroom : log.live window now client < limit <;> simp [check, hroom, addition?]

theorem admitted_cons (use : Nat × Use) (uses : List (Nat × Use))
    (answer : Option (Except HttpError Unit)) (answers : List (Option (Except HttpError Unit))) :
    admitted (use :: uses) (answer :: answers) =
      (addition? (use, answer)).toList ++ admitted uses answers := by
  cases hentry : addition? (use, answer) <;> simp [admitted, hentry]

theorem answers_append (log : Log) (before rest : List (Nat × Use)) :
    log.answers limit window refusal (before ++ rest) =
      log.answers limit window refusal before ++
        (log ++ admitted before (log.answers limit window refusal before)).answers limit window
          refusal rest := by
  induction before generalizing log with
  | nil => simp [answers, admitted]
  | cons use before ih =>
      obtain ⟨now, use⟩ := use
      cases use with
      | purge => simp [answers, admitted_cons, addition?, ih log]
      | check client =>
          simp only [List.cons_append, answers, admitted_cons, ih, check_fst, List.append_assoc]

theorem length_answers (limit window : Nat) (refusal : HttpError) (log : Log)
    (uses : List (Nat × Use)) :
    (log.answers limit window refusal uses).length = uses.length := by
  induction uses generalizing log with
  | nil => rfl
  | cons use uses ih =>
      obtain ⟨now, use⟩ := use
      cases use <;> simp [answers, ih]

/-- No interval of the length of a window holds more admitted checks than the limit. -/
theorem inInterval_check_le (refusal : HttpError) (log : Log) (now : Nat) (client : String)
    (hbound : ∀ other first, log.inInterval window first other ≤ limit) (other : String)
    (first : Nat) :
    (log.check limit window refusal now client).1.inInterval window first other ≤ limit := by
  by_cases hroom : log.live window now client < limit
  · simp only [check, if_pos hroom]
    by_cases hother : other = client
    · subst hother
      simp only [inInterval, instants_append_self, List.countP_append, List.countP_singleton]
      split
      next hinside =>
        -- All earlier instants of the interval are inside the window that ends now.
        have hlive : log.inInterval window first other ≤ log.live window now other := by
          apply List.countP_mono_left
          intro seen _ hseen
          simp only [decide_eq_true_eq] at hseen hinside ⊢
          omega
        simp only [inInterval] at hlive
        omega
      next => exact hbound other first
    · rw [inInterval, instants_append_of_ne hother]
      exact hbound other first
  · simp only [check, if_neg hroom]
    exact hbound other first

theorem inInterval_admitted_le (refusal : HttpError) (log : Log) (uses : List (Nat × Use))
    (hbound : ∀ client first, log.inInterval window first client ≤ limit) (client : String)
    (first : Nat) :
    (log ++ admitted uses (log.answers limit window refusal uses)).inInterval window first
      client ≤ limit := by
  induction uses generalizing log with
  | nil => simpa [admitted, answers] using hbound client first
  | cons use uses ih =>
      obtain ⟨now, use⟩ := use
      cases use with
      | purge => simpa [answers, admitted_cons, addition?] using ih log hbound
      | check asking =>
          have hnext := ih _ fun other first =>
            inInterval_check_le refusal log now asking hbound other first
          simpa only [answers, admitted_cons, check_fst, List.append_assoc] using hnext

end Log

/-- A refused check leaves no trace in the later answers. -/
theorem Log.answers_of_refused {limit window : Nat} {refusal : HttpError} {log : Log}
    {before after : List (Nat × Use)} {now : Nat} {client : String} {e : HttpError}
    (hrefused : (log.answers limit window refusal
      (before ++ (now, .check client) :: after))[before.length]? = some (some (.error e))) :
    log.answers limit window refusal (before ++ after) =
      (log.answers limit window refusal (before ++ (now, .check client) :: after)).eraseIdx
        before.length := by
  have hcons : ∀ earlier : Log, earlier.answers limit window refusal ((now, .check client) :: after) =
      some (earlier.check limit window refusal now client).2 ::
        (earlier.check limit window refusal now client).1.answers limit window refusal after :=
    fun _ => rfl
  have hlength := log.length_answers limit window refusal before
  simp only [answers_append, hcons, check_fst] at hrefused ⊢
  rw [List.getElem?_append_right hlength.le, hlength, Nat.sub_self, List.getElem?_cons_zero,
    Option.some.injEq, Option.some.injEq] at hrefused
  rw [List.eraseIdx_append_of_length_le hlength.le, hlength, Nat.sub_self, List.eraseIdx_cons_zero,
    hrefused]
  simp [addition?]

/-- A limiter that is used while the clock does not go back answers as the plain sliding log;
so no interval of the length of the window holds more admitted checks of a client than the
limit, and a refused check might as well not have been made. -/
theorem answers_eq_slidingLog (limit window start : Nat) (uses : List (Nat × Use))
    (hsorted : uses.Pairwise fun first second => first.1 ≤ second.1) :
    (new limit window start).answers uses =
      Log.answers limit window (new limit window start).rejection [] uses ∧
    (∀ client first, (Log.admitted uses ((new limit window start).answers uses)).inInterval
      window first client ≤ limit) ∧
    ∀ before now client after e, uses = before ++ (now, .check client) :: after →
      ((new limit window start).answers uses)[before.length]? = some (some (.error e)) →
      (new limit window start).answers (before ++ after) =
        ((new limit window start).answers uses).eraseIdx before.length := by
  have hall : ∀ timely : List (Nat × Use),
      timely.Pairwise (fun first second => first.1 ≤ second.1) →
      (new limit window start).answers timely =
        Log.answers limit window (new limit window start).rejection [] timely := by
    intro timely htimely
    exact answers_eq (Tracks.new limit window start) timely (fun _ _ => Nat.zero_le _) htimely
  rw [hall uses hsorted]
  refine ⟨rfl, ?_, ?_⟩
  · intro client first
    have hempty : ∀ other first, Log.inInterval [] window first other ≤ limit := by
      simp [Log.inInterval, Log.instants]
    simpa using Log.inInterval_admitted_le (new limit window start).rejection [] uses hempty
      client first
  · intro before now client after e hsplit hrefused
    have hshort : (before ++ after).Pairwise fun first second => first.1 ≤ second.1 := by
      rw [hsplit] at hsorted
      exact hsorted.sublist ((List.sublist_cons_self _ _).append_left before)
    rw [hall _ hshort, hsplit]
    rw [hsplit] at hrefused
    exact Log.answers_of_refused hrefused

/-- Two requests in a window are admitted, a third is not, until the window has passed. -/
theorem answers_of_two_in_window :
    ([(0, .check "c"), (1, .check "c"), (2, .check "c"), (2, .check "d"), (150, .purge),
      (150, .check "c")] : List (Nat × Use)).Pairwise (fun first second => first.1 ≤ second.1) ∧
    (new 2 100 0).answers [(0, .check "c"), (1, .check "c"), (2, .check "c"), (2, .check "d"),
      (150, .purge), (150, .check "c")] =
      [some (.ok ()), some (.ok ()), some (.error (new 2 100 0).rejection), some (.ok ()),
        none, some (.ok ())] := by
  have hsorted : ([(0, .check "c"), (1, .check "c"), (2, .check "c"), (2, .check "d"),
      (150, .purge), (150, .check "c")] : List (Nat × Use)).Pairwise
      (fun first second => first.1 ≤ second.1) := by decide
  exact ⟨hsorted, (answers_eq_slidingLog 2 100 0 _ hsorted).1⟩

end Limiter
end WebApp
