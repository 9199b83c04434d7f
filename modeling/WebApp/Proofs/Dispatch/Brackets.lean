import Mathlib.Tactic
import WebApp.Proofs.Dispatch.Answers
import WebApp.Proofs.Dispatch.Stages

/-!
# The order of the calls of a dispatch

The layers are asked from the outermost on, and the response goes back through those that have
let the request pass, the innermost first.  What comes between depends on how the way in ended.
A rejection goes straight back from the layer that made it; any other failure of a layer is the
last call of the dispatch, which then gives the bare answer of a 500.  The grammar below says this
of chains of any length, and every run of a dispatch is a word of it.
-/

namespace WebApp

variable {σ : Type}

/-- What a dispatch calls, in order. -/
def Deed.calls (trace : List (Deed σ)) : List Label :=
  (trace.map Deed.label).filter (· ≠ .own)

/-- What the response is once a hook has gone so that nothing more is called. -/
inductive Fate.Stops : Fate → Outcome Response → Prop where
  | failed (e : Error) : Stops (.failed e) (.finished .internalError)
  | panicked (text : String) : Stops (.panicked text) (.panicked text)

namespace Round

/-- The layers in these places are asked one after another, up to one that ends the round. -/
inductive Cut (hook : Hook) (places : List Nat) : List Label → Nat → Fate → Prop where
  | at {done missed : List Nat} {place : Nat} (fate : Fate) :
      places = done ++ place :: missed →
      Cut hook places (passed hook done ++ [.hook hook place fate]) place fate

end Round

namespace Core

open Round

/-- The calls of a handler of errors: none, or one. -/
inductive Handling : List Label → Option (Outcome Response) → Prop where
  | none : Handling [] none
  | one : Handling [.errorHandler] none
  | panicked (text : String) : Handling [.errorHandler] (some (.panicked text))

/-- The calls that decide what the client is told, once `n` layers have let the request pass; and
the outcome, if it ends with them. -/
inductive Answering (n : Nat) : List Label → Option (Outcome Response) → Prop where
  | handling {calls : List Label} {stopped : Option (Outcome Response)} :
      Handling calls stopped → Answering n calls stopped
  | unanswered : Answering n (passed .onError (List.range n)) none
  | answered {calls : List Label} {place : Nat} :
      Cut .onError (List.range n) calls place .answered → Answering n calls none
  | stopped {calls : List Label} {place : Nat} {fate : Fate} {outcome : Outcome Response} :
      Cut .onError (List.range n) calls place fate → fate.Stops outcome →
      Answering n calls (some outcome)

/-- The calls on the way out through the outermost `depth` layers, if it has not ended before. -/
inductive WayOut (depth : Nat) : Option (Outcome Response) → List Label → Outcome Response →
    Prop where
  | never (outcome : Outcome Response) : WayOut depth (some outcome) [] outcome
  | through (response : Response) :
      WayOut depth none (passed .afterRequest (List.range depth).reverse) (.finished response)
  | stopped {calls : List Label} {place : Nat} {fate : Fate} {outcome : Outcome Response} :
      Cut .afterRequest (List.range depth).reverse calls place fate → fate.Stops outcome →
      WayOut depth none calls outcome

/-- The calls of a dispatch with `n` layers, where `serving` is what serves the request. -/
inductive Bracketed (n : Nat) (serving : List Label) : List Label → Outcome Response → Prop where
  | stopped {entering : List Label} {place : Nat} {fate : Fate} {outcome : Outcome Response} :
      Cut .beforeRequest (List.range n) entering place fate → fate.Stops outcome →
      (∀ e, fate = .failed e → e.isDeclared = false) →
      Bracketed n serving entering outcome
  | rejected {entering answering leaving : List Label} {place : Nat} {e : Error}
      {ended : Option (Outcome Response)} {outcome : Outcome Response} :
      Cut .beforeRequest (List.range n) entering place (.failed e) → e.isDeclared →
      Handling answering ended → WayOut place ended leaving outcome →
      Bracketed n serving (entering ++ answering ++ leaving) outcome
  | entered {answering leaving : List Label} {ended : Option (Outcome Response)}
      {outcome : Outcome Response} :
      Answering n answering ended → WayOut n ended leaving outcome →
      Bracketed n serving
        (passed .beforeRequest (List.range n) ++ serving ++ answering ++ leaving) outcome

/-! ## Who has been asked -/

section Grammar

variable {hook other : Hook} {places : List Nat} {calls : List Label} {place : Nat} {fate : Fate}
variable {outcome : Outcome Response} {e : Error}

@[simp] theorem mem_passed_iff {label : Label} :
    label ∈ passed hook places ↔ ∃ place ∈ places, label = .hook hook place .passed := by
  simp [passed, eq_comm]

theorem eq_of_mem_passed (hmem : .hook other place fate ∈ passed hook places) :
    other = hook ∧ place ∈ places ∧ fate = .passed := by
  obtain ⟨_, hplace, hlabel⟩ := mem_passed_iff.mp hmem
  obtain ⟨rfl, rfl, rfl⟩ := Label.hook.inj hlabel
  exact ⟨rfl, hplace, rfl⟩

theorem Cut.mem_places (hcut : Cut hook places calls place fate) : place ∈ places := by
  obtain ⟨_, rfl⟩ := hcut
  simp

theorem Cut.eq_and_mem {last : Nat} {ending : Fate} (hcut : Cut hook places calls last ending)
    (hmem : .hook other place fate ∈ calls) : other = hook ∧ place ∈ places := by
  obtain ⟨_, rfl⟩ := hcut
  rcases List.mem_append.mp hmem with hdone | hlast
  · obtain ⟨hhook, hplace, -⟩ := eq_of_mem_passed hdone
    exact ⟨hhook, List.mem_append_left _ hplace⟩
  · rw [List.mem_singleton, Label.hook.injEq] at hlast
    exact ⟨hlast.1, by simp [hlast.2.1]⟩

theorem Handling.not_mem {ended : Option (Outcome Response)} (hhandling : Handling calls ended) :
    .hook other place fate ∉ calls := by
  cases hhandling <;> simp

theorem Answering.eq_onError {n : Nat} {ended : Option (Outcome Response)}
    (hanswering : Answering n calls ended) (hmem : .hook other place fate ∈ calls) :
    other = .onError := by
  cases hanswering with
  | handling hhandling => exact absurd hmem hhandling.not_mem
  | unanswered => exact (eq_of_mem_passed hmem).1
  | answered hcut => exact (Cut.eq_and_mem hcut hmem).1
  | stopped hcut _ => exact (Cut.eq_and_mem hcut hmem).1

theorem WayOut.lt_depth {depth : Nat} {ended : Option (Outcome Response)}
    {outcome : Outcome Response} (hout : WayOut depth ended calls outcome)
    (hmem : .hook other place fate ∈ calls) : place < depth := by
  cases hout with
  | never => simp at hmem
  | through => simpa using (eq_of_mem_passed hmem).2.1
  | stopped hcut _ => simpa using (Cut.eq_and_mem hcut hmem).2

theorem Cut.passed_of_lt {n last : Nat} {ending : Fate}
    (hcut : Cut hook (List.range n) calls last ending) (hlt : place < last) :
    .hook hook place .passed ∈ calls := by
  have hlast : last < n := List.mem_range.mp (Cut.mem_places hcut)
  obtain ⟨_, hplaces⟩ := hcut
  rename_i done missed
  -- In the list of all places in order, `last` stands behind exactly the smaller ones.
  have hlength : done.length = last := by
    have hget : (List.range n)[done.length]? = some last := by simp [hplaces]
    simpa using (List.getElem?_eq_some_iff.mp hget).2
  have hdone : place ∈ done := by
    have htake : done = (List.range n).take last := by simp [hplaces, ← hlength]
    rw [htake, List.take_range, List.mem_range]
    omega
  simp [hdone]

/-- A layer sees the response on the way out only after it has let the request pass. -/
theorem Bracketed.sublist_of_mem {n : Nat} {serving : List Label} {outcome : Outcome Response}
    (hserving : ∀ hook place fate, .hook hook place fate ∉ serving)
    (hbracketed : Bracketed n serving calls outcome)
    (hmem : .hook .afterRequest place fate ∈ calls) :
    [Label.hook .beforeRequest place .passed, .hook .afterRequest place fate].Sublist calls := by
  -- Whatever is called in between, the way in comes before the way out.
  have hpair : ∀ {entering middle leaving : List Label},
      .hook .beforeRequest place .passed ∈ entering → .hook .afterRequest place fate ∈ leaving →
      [Label.hook .beforeRequest place .passed, .hook .afterRequest place fate].Sublist
        (entering ++ middle ++ leaving) := by
    intro entering middle leaving hin hout
    have hfirst : [Label.hook .beforeRequest place .passed].Sublist (entering ++ middle) :=
      List.singleton_sublist.mpr (List.mem_append_left _ hin)
    exact hfirst.append (List.singleton_sublist.mpr hout)
  cases hbracketed with
  | stopped hcut => exact absurd (Cut.eq_and_mem hcut hmem).1 (by simp)
  | rejected hcut _ hhandling hout =>
      rw [List.mem_append, List.mem_append] at hmem
      rcases hmem with (hmem | hmem) | hmem
      · exact absurd (Cut.eq_and_mem hcut hmem).1 (by simp)
      · exact absurd hmem hhandling.not_mem
      · exact hpair (Cut.passed_of_lt hcut (hout.lt_depth hmem)) hmem
  | entered hanswering hout =>
      rw [List.mem_append, List.mem_append, List.mem_append] at hmem
      rcases hmem with ((hmem | hmem) | hmem) | hmem
      · exact absurd (eq_of_mem_passed hmem).1 (by simp)
      · exact absurd hmem (hserving _ _ _)
      · exact absurd (hanswering.eq_onError hmem) (by simp)
      · have hin : .hook .beforeRequest place .passed ∈ passed .beforeRequest (List.range n) := by
          simpa using hout.lt_depth hmem
        rw [List.append_assoc (passed _ _)]
        exact hpair hin hmem

theorem eq_of_failed {last : Nat} {ending : Fate} (hcut : Cut hook places calls last ending)
    (hmem : .hook other place (.failed e) ∈ calls) : ending = .failed e := by
  obtain ⟨_, -⟩ := hcut
  rcases List.mem_append.mp hmem with hdone | hlast
  · exact absurd (eq_of_mem_passed hdone).2.2 (by simp)
  · rw [List.mem_singleton] at hlast
    exact (Label.hook.inj hlast).2.2.symm

theorem stops_of_failed {last : Nat} {ending : Fate} (hcut : Cut hook places calls last ending)
    (hstops : ending.Stops outcome) (hmem : .hook other place (.failed e) ∈ calls) :
    outcome = .finished .internalError := by
  have hending := eq_of_failed hcut hmem
  subst hending
  cases hstops
  rfl

theorem wayOut_of_failed {depth : Nat} {ended : Option (Outcome Response)}
    (hout : WayOut depth ended calls outcome) (hmem : .hook other place (.failed e) ∈ calls) :
    outcome = .finished .internalError := by
  cases hout with
  | never => simp at hmem
  | through => exact absurd (eq_of_mem_passed hmem).2.2 (by simp)
  | stopped hcut hstops => exact stops_of_failed hcut hstops hmem

theorem answering_of_failed {n : Nat} {ended : Option (Outcome Response)}
    (hanswering : Answering n calls ended) (hmem : .hook other place (.failed e) ∈ calls) :
    ended = some (.finished .internalError) := by
  cases hanswering with
  | handling hhandling => exact absurd hmem hhandling.not_mem
  | unanswered => exact absurd (eq_of_mem_passed hmem).2.2 (by simp)
  | answered hcut => exact absurd (eq_of_failed hcut hmem) (by simp)
  | stopped hcut hstops => rw [stops_of_failed hcut hstops hmem]

/-- A hook that fails leaves the bare answer, unless it rejects the request. -/
theorem Bracketed.internalError_of_failed {n : Nat} {serving : List Label}
    (hserving : ∀ hook place fate, .hook hook place fate ∉ serving)
    (hbracketed : Bracketed n serving calls outcome)
    (hmem : .hook hook place (.failed e) ∈ calls)
    (hrejects : hook = .beforeRequest → e.isDeclared = false) :
    outcome = .finished .internalError := by
  cases hbracketed with
  | stopped hcut hstops _ => exact stops_of_failed hcut hstops hmem
  | rejected hcut hdeclared hhandling hout =>
      rw [List.mem_append, List.mem_append] at hmem
      rcases hmem with (hmem | hmem) | hmem
      · -- The layer that rejects the request is the only one on the way in that has failed.
        have hsame := eq_of_failed hcut hmem
        rw [Fate.failed.injEq] at hsame
        rw [← hsame, hdeclared] at hrejects
        exact absurd (hrejects (Cut.eq_and_mem hcut hmem).1) (by simp)
      · exact absurd hmem hhandling.not_mem
      · exact wayOut_of_failed hout hmem
  | entered hanswering hout =>
      rw [List.mem_append, List.mem_append, List.mem_append] at hmem
      rcases hmem with ((hmem | hmem) | hmem) | hmem
      · exact absurd (eq_of_mem_passed hmem).2.2 (by simp)
      · exact absurd hmem (hserving _ _ _)
      · rw [answering_of_failed hanswering hmem] at hout
        cases hout
        rfl
      · exact wayOut_of_failed hout hmem

end Grammar

/-! ## Every dispatch is bracketed -/

/-- A deed is what its label says. -/
inductive Genuine (core : Core (Routine σ)) (endpoint : Option (Endpoint (Routine σ))) :
    Deed σ → Prop where
  | before {layer : Layer (Routine σ)} {place : Nat} {request : Request} {steps : List (Step σ)}
      {ended : Outcome (Request × Option Error)} :
      core.chain[place]? = some layer → (layer.before request).Runs steps ended →
      Genuine core endpoint ⟨.hook .beforeRequest place ((entering _).fateOf ended), steps⟩
  | after {layer : Layer (Routine σ)} {place : Nat} {request : Request} {response : Response}
      {steps : List (Step σ)} {ended : Outcome (Response × Option Error)} :
      core.chain[place]? = some layer → (layer.after request response).Runs steps ended →
      Genuine core endpoint ⟨.hook .afterRequest place ((leaving _ request).fateOf ended), steps⟩
  | onError {layer : Layer (Routine σ)} {place : Nat} {request : Request} {e : Error}
      {steps : List (Step σ)} {ended : Outcome (Except Error (Option Response))} :
      core.chain[place]? = some layer → (layer.onError request e).Runs steps ended →
      Genuine core endpoint ⟨.hook .onError place ((offering _ request e).fateOf ended), steps⟩
  | endpoint {served : Endpoint (Routine σ)} {request : Request} {background : Queue}
      {steps : List (Step σ)} {ended : Outcome (Except Error Response)} :
      endpoint = some served → (core.invoke served request background).Runs steps ended →
      Genuine core endpoint ⟨.endpoint, steps⟩
  | errorHandler {handler : ExceptionHandler (Routine σ)} {request : Request} {e : Error}
      {steps : List (Step σ)} {ended : Outcome Response} :
      Assoc.get? e.typeName core.handlers.byType = some handler ∨
        Assoc.get? e.status core.handlers.byStatus = some handler →
      (handler request e).Runs steps ended →
      Genuine core endpoint ⟨.errorHandler, steps⟩
  | own {deed : Deed σ} : Own deed → Genuine core endpoint deed

section Runs

variable {core : Core (Routine σ)} {endpoint : Option (Endpoint (Routine σ))}

theorem calls_append (first second : List (Deed σ)) :
    Deed.calls (first ++ second) = Deed.calls first ++ Deed.calls second := by
  simp [Deed.calls]

theorem calls_of_own {deeds : List (Deed σ)} (hown : ∀ deed ∈ deeds, Own deed) :
    Deed.calls deeds = [] := by
  unfold Deed.calls
  rw [List.filter_eq_nil_iff]
  intro label hlabel
  obtain ⟨deed, hdeed, rfl⟩ := List.mem_map.mp hlabel
  simp [(hown deed hdeed).1]

theorem calls_cons {opened : Deed σ} (hown : Own opened) (trace : List (Deed σ)) :
    Deed.calls (opened :: trace) = Deed.calls trace := by
  simp [Deed.calls, hown.1]

theorem calls_own {deed : Deed σ} (hown : Own deed) : Deed.calls [deed] = [] :=
  calls_of_own (by simpa using hown)

section OfRounds

variable {α β γ : Type} {round : Round (Routine σ) α β γ}
variable {layers : List (Layer (Routine σ) × Nat)} {state : α} {deeds : List (Deed σ)}
variable {places : List Nat}

theorem calls_of_went {ended : Outcome (α ⊕ String × Nat × γ)}
    (hwent : round.Went layers state deeds ended) : Deed.calls deeds = deeds.map Deed.label := by
  unfold Deed.calls
  rw [List.filter_eq_self]
  intro label hlabel
  obtain ⟨deed, hdeed, rfl⟩ := List.mem_map.mp hlabel
  obtain ⟨_, _, _, _, -, -, hcall⟩ := hwent.exists_call hdeed
  simp [hcall]

theorem calls_of_through (hlayers : layers.map Prod.snd = places) {next : α}
    (hwent : round.Went layers state deeds (.finished (.inl next))) :
    Deed.calls deeds = passed round.hook places := by
  rw [calls_of_went hwent, hwent.labels_of_through, hlayers]

theorem cut_of_stop (hlayers : layers.map Prod.snd = places) {name : String} {place : Nat}
    {cause : γ} (hwent : round.Went layers state deeds (.finished (.inr (name, place, cause)))) :
    Cut round.hook places (Deed.calls deeds) place (round.fate cause) := by
  obtain ⟨done, last, missed, fate, hplaces, hlabels, hlast⟩ := hwent.labels_of_stop (by simp)
  rw [hlayers] at hplaces
  rw [calls_of_went hwent, hlabels]
  rcases hlast with ⟨_, _, hended, rfl⟩ | ⟨_, hended, -⟩
  · simp only [Outcome.finished.injEq, Sum.inr.injEq, Prod.mk.injEq] at hended
    obtain ⟨-, rfl, rfl⟩ := hended
    exact .at _ hplaces
  · exact absurd hended (by simp)

theorem cut_of_panic (hlayers : layers.map Prod.snd = places) {text : String}
    (hwent : round.Went layers state deeds (.panicked text)) :
    ∃ place, Cut round.hook places (Deed.calls deeds) place (.panicked text) := by
  obtain ⟨done, last, missed, fate, hplaces, hlabels, hlast⟩ := hwent.labels_of_stop (by simp)
  rw [hlayers] at hplaces
  rw [calls_of_went hwent, hlabels]
  rcases hlast with ⟨_, _, hended, -⟩ | ⟨_, hended, rfl⟩
  · exact absurd hended (by simp)
  · rw [Outcome.panicked.injEq] at hended
    subst hended
    exact ⟨last, .at _ hplaces⟩

end OfRounds

theorem places_of_depth (chain : Chain (Routine σ)) {depth : Nat} (hdepth : depth ≤ chain.length) :
    (chain.zipIdx.take depth).reverse.map Prod.snd = (List.range depth).reverse := by
  rw [List.map_reverse, List.map_take, List.zipIdx_map_snd, ← List.range_eq_range',
    List.take_range, Nat.min_eq_left hdepth]

theorem places_of_chain (chain : Chain (Routine σ)) :
    chain.zipIdx.map Prod.snd = List.range chain.length := by
  rw [List.zipIdx_map_snd, List.range_eq_range']

/-- What the response is if deciding it has ended the dispatch. -/
def stopped? : Outcome (Except HookFailure Response) → Option (Outcome Response)
  | .finished (.ok _) => none
  | .finished (.error _) => some (.finished .internalError)
  | .panicked text => some (.panicked text)

theorem wayOut_of_leaves {depth : Nat} {request : Request}
    {decided : Except HookFailure Response} {deeds : List (Deed σ)} {outcome : Outcome Response}
    (hdepth : depth ≤ core.chain.length)
    (hleaves : Leaves core depth request decided deeds outcome) :
    WayOut depth (stopped? (.finished decided)) (Deed.calls deeds) outcome := by
  have hplaces := places_of_depth core.chain hdepth
  cases hleaves with
  | failed => exact .never _
  | through hwent =>
      rw [calls_of_through hplaces hwent]
      exact .through _
  | stopped hwent hown =>
      rw [calls_append, calls_own hown, List.append_nil]
      exact .stopped (cut_of_stop hplaces hwent) (.failed _)
  | broken hwent =>
      obtain ⟨_, hcut⟩ := cut_of_panic hplaces hwent
      exact .stopped hcut (.panicked _)

theorem handling_one (answer : Outcome Response) :
    Handling [.errorHandler] (stopped? (answer.map .ok)) := by
  cases answer with
  | finished => exact .one
  | panicked text => exact .panicked text

theorem handling_of_decides {request : Request} {e : Error} {deeds : List (Deed σ)}
    {ended : Outcome (Except HookFailure Response)}
    (hdecides : Decides core request (.rejected e) deeds ended) :
    Handling (Deed.calls deeds) (stopped? ended) := by
  cases hdecides with
  | handled => exact handling_one _
  | itself => exact .none
  | offered hasks | unanswered hasks | failed hasks | broken hasks =>
      exact absurd hasks Bool.false_ne_true

theorem answering_of_decides {request : Request} {cause : Cause} {deeds : List (Deed σ)}
    {ended : Outcome (Except HookFailure Response)}
    (hdecides : Decides core request cause deeds ended) :
    Answering core.chain.length (Deed.calls deeds) (stopped? ended) := by
  have hplaces := places_of_chain core.chain
  cases hdecides with
  | handled => exact .handling (handling_one _)
  | replaced => exact .handling (handling_one _)
  | itself => exact .handling .none
  | kept => exact .handling .none
  | offered _ _ _ hwent => exact .answered (cut_of_stop hplaces hwent)
  | unanswered _ _ _ hwent =>
      rw [calls_of_through hplaces hwent]
      exact .unanswered
  | failed _ _ _ hwent hown =>
      rw [calls_append, calls_own hown, List.append_nil]
      exact .stopped (cut_of_stop hplaces hwent) (.failed _)
  | broken _ _ _ hwent =>
      obtain ⟨_, hcut⟩ := cut_of_panic hplaces hwent
      exact .stopped hcut (.panicked _)

theorem bracketed_of_arises {request entered : Request} {background : Queue} {depth : Nat}
    {cause : Cause} {arising deciding leaving : List (Deed σ)}
    {ended : Outcome (Except HookFailure Response)} {outcome : Outcome Response}
    (harises : Arises core endpoint request background arising entered depth cause)
    (hdecides : Decides core entered cause deciding ended)
    (hout : depth ≤ core.chain.length →
      WayOut depth (stopped? ended) (Deed.calls leaving) outcome) :
    Bracketed core.chain.length (endpoint.map fun _ => Label.endpoint).toList
      (Deed.calls (arising ++ deciding ++ leaving)) outcome := by
  rw [calls_append, calls_append]
  have hplaces := places_of_chain core.chain
  have hanswering := answering_of_decides hdecides
  cases harises with
  | rejected hwent hdeclared hown =>
      -- A rejection is answered without the layers, so only its handler can come in between.
      have hcut := cut_of_stop hplaces hwent
      have hdepth : depth < core.chain.length := List.mem_range.mp (Cut.mem_places hcut)
      rw [calls_append, calls_own hown, List.append_nil]
      exact .rejected hcut hdeclared (handling_of_decides hdecides) (hout hdepth.le)
  | notFound hnone hwent =>
      rw [calls_of_through hplaces hwent, hnone]
      have hbracketed : Bracketed core.chain.length []
          (passed .beforeRequest (List.range core.chain.length) ++ [] ++ Deed.calls deciding ++
            Deed.calls leaving) outcome :=
        .entered hanswering (hout le_rfl)
      rw [List.append_nil] at hbracketed
      exact hbracketed
  | raised hsome hwent | returned hsome hwent =>
      rw [calls_append, calls_of_through hplaces hwent, hsome]
      exact .entered hanswering (hout le_rfl)

theorem Dispatches.bracketed {request : Request} {trace : List (Deed σ)}
    {outcome : Outcome Response} (hdispatches : Dispatches core endpoint request trace outcome) :
    Bracketed core.chain.length (endpoint.map fun _ => Label.endpoint).toList (Deed.calls trace)
      outcome := by
  have hplaces := places_of_chain core.chain
  cases hdispatches with
  | broken hopened hwent =>
      obtain ⟨_, hcut⟩ := cut_of_panic hplaces hwent
      rw [calls_cons hopened]
      exact .stopped hcut (.panicked _) (by simp)
  | fatal hopened hwent hdeclared hown =>
      rw [calls_cons hopened, calls_append, calls_own hown, List.append_nil]
      refine .stopped (cut_of_stop hplaces hwent) (.failed _) ?_
      rintro _ ⟨⟩
      exact hdeclared
  | undecided hopened harises hdecides =>
      rw [calls_cons hopened, ← List.append_nil (_ ++ _)]
      exact bracketed_of_arises harises hdecides fun _ => .never _
  | decided hopened harises hdecides hleaves hreleased =>
      rw [calls_cons hopened, calls_append, calls_of_own hreleased, List.append_nil]
      apply bracketed_of_arises harises hdecides
      intro hdepth
      exact wayOut_of_leaves hdepth hleaves

/-- Serving the request calls no hook. -/
theorem hook_notMem_served (endpoint : Option (Endpoint (Routine σ))) (hook : Hook) (place : Nat)
    (fate : Fate) : .hook hook place fate ∉ (endpoint.map fun _ => Label.endpoint).toList := by
  cases endpoint <;> simp

/-! ### What the deeds are -/

theorem genuine_of_went {α β γ : Type} {round : Round (Routine σ) α β γ}
    (hround : ∀ layer place given steps ended, core.chain[place]? = some layer →
      (round.ask layer given).Runs steps ended →
      Genuine core endpoint ⟨.hook round.hook place (round.fateOf ended), steps⟩)
    {layers : List (Layer (Routine σ) × Nat)}
    (hlayers : ∀ entry ∈ layers, entry ∈ core.chain.zipIdx)
    {state : α} {deeds : List (Deed σ)} {ended : Outcome (α ⊕ String × Nat × γ)}
    (hwent : round.Went layers state deeds ended) : ∀ deed ∈ deeds, Genuine core endpoint deed := by
  rintro ⟨label, steps⟩ hdeed
  obtain ⟨layer, place, given, answered, hmem, hcall, rfl⟩ := hwent.exists_call hdeed
  have hplace : core.chain[place]? = some layer :=
    List.mem_zipIdx_iff_getElem?.mp (hlayers _ hmem)
  exact hround layer place given steps answered hplace hcall

theorem genuine_of_entering {request : Request} {deeds : List (Deed σ)}
    {ended : Outcome (Request ⊕ String × Nat × Request × Error)}
    (hwent : (entering _).Went core.chain.zipIdx request deeds ended) :
    ∀ deed ∈ deeds, Genuine core endpoint deed :=
  genuine_of_went (fun _ _ _ _ _ hplace hcall => .before hplace hcall) (fun _ h => h) hwent

theorem genuine_of_arises {request entered : Request} {background : Queue} {depth : Nat}
    {cause : Cause} {deeds : List (Deed σ)}
    (harises : Arises core endpoint request background deeds entered depth cause) :
    ∀ deed ∈ deeds, Genuine core endpoint deed := by
  cases harises with
  | rejected hwent _ hown =>
      simp only [List.forall_mem_append, List.forall_mem_singleton]
      exact ⟨genuine_of_entering hwent, .own hown⟩
  | notFound _ hwent => exact genuine_of_entering hwent
  | raised hsome hwent hinvoke | returned hsome hwent hinvoke =>
      simp only [List.forall_mem_append, List.forall_mem_singleton]
      exact ⟨genuine_of_entering hwent, .endpoint hsome hinvoke⟩

theorem genuine_of_decides {request : Request} {cause : Cause} {deeds : List (Deed σ)}
    {ended : Outcome (Except HookFailure Response)}
    (hdecides : Decides core request cause deeds ended) :
    ∀ deed ∈ deeds, Genuine core endpoint deed := by
  have hoffering : ∀ {e : Error} {deeds : List (Deed σ)}
      {ended : Outcome (Unit ⊕ String × Nat × Except Error Response)},
      (offering _ request e).Went core.chain.zipIdx () deeds ended →
      ∀ deed ∈ deeds, Genuine core endpoint deed := fun hwent =>
    genuine_of_went (fun _ _ _ _ _ hplace hcall => .onError hplace hcall) (fun _ h => h) hwent
  cases hdecides with
  | handled _ hhandles hcall =>
      rw [List.forall_mem_singleton]
      cases hhandles with
      | byType htype => exact .errorHandler (.inl htype) hcall
      | byStatus _ hstatus => exact .errorHandler (.inr hstatus) hcall
  | replaced _ hstatus hcall =>
      rw [List.forall_mem_singleton]
      refine .errorHandler ?_ hcall
      exact .inr hstatus
  | itself => simp
  | kept => simp
  | offered _ _ _ hwent | unanswered _ _ _ hwent | broken _ _ _ hwent => exact hoffering hwent
  | failed _ _ _ hwent hown =>
      simp only [List.forall_mem_append, List.forall_mem_singleton]
      exact ⟨hoffering hwent, .own hown⟩

theorem genuine_of_leaves {depth : Nat} {request : Request}
    {decided : Except HookFailure Response} {deeds : List (Deed σ)} {outcome : Outcome Response}
    (hleaves : Leaves core depth request decided deeds outcome) :
    ∀ deed ∈ deeds, Genuine core endpoint deed := by
  have hleaving : ∀ {response : Response} {deeds : List (Deed σ)}
      {ended : Outcome (Response ⊕ String × Nat × Response × Error)},
      (leaving _ request).Went (core.chain.zipIdx.take depth).reverse response deeds ended →
      ∀ deed ∈ deeds, Genuine core endpoint deed := fun hwent =>
    genuine_of_went (fun _ _ _ _ _ hplace hcall => .after hplace hcall)
      (fun _ h => List.mem_of_mem_take (List.mem_reverse.mp h)) hwent
  cases hleaves with
  | failed => simp
  | through hwent | broken hwent => exact hleaving hwent
  | stopped hwent hown =>
      simp only [List.forall_mem_append, List.forall_mem_singleton]
      exact ⟨hleaving hwent, .own hown⟩

theorem Dispatches.genuine {request : Request} {trace : List (Deed σ)} {outcome : Outcome Response}
    (hdispatches : Dispatches core endpoint request trace outcome) :
    ∀ deed ∈ trace, Genuine core endpoint deed := by
  cases hdispatches with
  | broken hopened hwent =>
      rw [List.forall_mem_cons]
      exact ⟨.own hopened, genuine_of_entering hwent⟩
  | fatal hopened hwent _ hown =>
      rw [List.forall_mem_cons, List.forall_mem_append, List.forall_mem_singleton]
      exact ⟨.own hopened, genuine_of_entering hwent, .own hown⟩
  | undecided hopened harises hdecides =>
      simp only [List.forall_mem_cons, List.forall_mem_append]
      exact ⟨.own hopened, genuine_of_arises harises, genuine_of_decides hdecides⟩
  | decided hopened harises hdecides hleaves hreleased =>
      simp only [List.forall_mem_cons, List.forall_mem_append]
      exact ⟨.own hopened, ⟨⟨genuine_of_arises harises, genuine_of_decides hdecides⟩,
        genuine_of_leaves hleaves⟩, fun deed hdeed => .own (hreleased deed hdeed)⟩

end Runs

/-- The calls of a dispatch are bracketed: all its steps are those of its deeds, each deed is a
call of what its label says, the labels are a word of the grammar, and a layer sees the response
on the way out only after it has let the request pass.  A hook that fails and does not reject the
request leaves the bare answer, which is a 500 that tells nothing of the failure. -/
theorem dispatch_bracketed (core : Core (Routine σ)) (endpoint : Option (Endpoint (Routine σ)))
    (request : Request) {steps : List (Step σ)} {outcome : Outcome Response}
    (hruns : (core.dispatch endpoint request).Runs steps outcome) :
    ∃ trace, steps = trace.flatMap Deed.steps ∧
      (∀ deed ∈ trace, Genuine core endpoint deed) ∧
      Bracketed core.chain.length (endpoint.map fun _ => Label.endpoint).toList
        (Deed.calls trace) outcome ∧
      (∀ place fate, .hook .afterRequest place fate ∈ Deed.calls trace →
        [.hook .beforeRequest place .passed, .hook .afterRequest place fate].Sublist
          (Deed.calls trace)) ∧
      (∀ hook place e, .hook hook place (.failed e) ∈ Deed.calls trace →
        (hook = .beforeRequest → e.isDeclared = false) → outcome = .finished .internalError) ∧
      Response.internalError.IsBare := by
  obtain ⟨trace, hsteps, hdispatches⟩ := dispatch_dispatches hruns
  refine ⟨trace, hsteps, hdispatches.genuine, hdispatches.bracketed, ?_, ?_,
    Response.isBare_internalError⟩
  · intro place fate hmem
    exact hdispatches.bracketed.sublist_of_mem (hook_notMem_served endpoint) hmem
  · intro hook place e hmem hrejects
    exact hdispatches.bracketed.internalError_of_failed (hook_notMem_served endpoint) hmem hrejects

/-! ## A failure of the second of three layers -/

/-- The second layer fails on the way in. -/
def faultyCore (e : Error) : Core (Routine Unit) :=
  { chain := [ErrorPage.layer _ false,
      { Layer.idle _ "faulty" with before := fun request => pure (request, some e) },
      Layer.idle _ "inner"] }

/-- What the dispatch reports of a failure of its second layer. -/
def faultEvent (e : Error) : Event :=
  if e.isDeclared then
    ⟨.debug, "request rejected by middleware", [("status", toString e.status.code)]⟩
  else
    ⟨.error, "middleware hook failed", [("middleware", "faulty"), ("hook", "before_request"),
      ("error", e.message), ("type_name", e.typeName)]⟩

/-- A rejection, and a failure that is none. -/
theorem dispatch_bracketed_faulty :
    (∃ steps, ((faultyCore (.declared (.ofStatus .tooManyRequests))).dispatch (some .options)
        { method := .get, path := "/" }).Runs steps
        (.finished (Error.declared (.ofStatus .tooManyRequests)).defaultResponse) ∧
      ∃ trace, steps = trace.flatMap Deed.steps ∧
        Bracketed 3 [.endpoint] (Deed.calls trace)
          (.finished (Error.declared (.ofStatus .tooManyRequests)).defaultResponse)) ∧
    ∃ steps response, ((faultyCore (.ofMessage "out of order")).dispatch (some .options)
        { method := .get, path := "/" }).Runs steps (.finished response) ∧ response.IsBare ∧
      ∃ trace, steps = trace.flatMap Deed.steps ∧
        Bracketed 3 [.endpoint] (Deed.calls trace) (.finished response) := by
  constructor
  · have hruns : ((faultyCore (.declared (.ofStatus .tooManyRequests))).dispatch (some .options)
        { method := .get, path := "/" }).Runs
        [.openQueue ⟨0⟩, .act 0 { state := () } { state := (), events :=
          [faultEvent (.declared (.ofStatus .tooManyRequests))] }, .release ⟨0⟩ false]
        (.finished (Error.declared (.ofStatus .tooManyRequests)).defaultResponse) :=
      ⟨⟨0⟩, [_], [_, _], rfl, rfl, (), [_], [_], rfl, ⟨0, { state := () }, rfl, rfl⟩,
        false, [_], [], rfl, rfl, rfl, rfl⟩
    obtain ⟨trace, hsteps, -, hbracketed, -⟩ := dispatch_bracketed _ _ _ hruns
    exact ⟨_, hruns, trace, hsteps, hbracketed⟩
  · have hruns : ((faultyCore (.ofMessage "out of order")).dispatch (some .options)
        { method := .get, path := "/" }).Runs
        [.openQueue ⟨0⟩, .act 0 { state := () } { state := (), events :=
          [faultEvent (.ofMessage "out of order")] }] (.finished .internalError) :=
      ⟨⟨0⟩, [_], [_], rfl, rfl, (), [_], [], rfl, ⟨0, { state := () }, rfl, rfl⟩, rfl, rfl⟩
    obtain ⟨trace, hsteps, -, hbracketed, -, -, hbare⟩ := dispatch_bracketed _ _ _ hruns
    exact ⟨_, _, hruns, hbare, trace, hsteps, hbracketed⟩

end Core
end WebApp
