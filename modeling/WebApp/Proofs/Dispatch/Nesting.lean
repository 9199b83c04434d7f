import Mathlib.Tactic
import WebApp.Proofs.Dependency.DataFlow
import WebApp.Proofs.Dispatch.Teardowns
import WebApp.Proofs.Task.History

/-!
# Nesting of what a dispatch holds

A provider may keep what it was called with in the value that it gives.  So a value is released
before every value that has gone into it, by itself or through others.  This holds of every
dispatch: whether or not the resolution or the handler fails, and wherever it is given up.
-/

namespace WebApp
namespace Core

universe u

/-! ## Dispatches that may be given up -/

section Programs

variable {m : Type → Type u} [Monad m] [Reports m] [Tasks m]

/-- What a dispatch does behind the way in. -/
def goOn (core : Core m) (endpoint : Endpoint m) : Queue × Request × Option Refusal → m Response
  | (background, request, some refusal) => core.turnAway request background refusal
  | (background, request, none) =>
    match endpoint.bind request with
    | .error e => core.conclude request background (.error (.declared e))
    | .ok arguments => do
      let served ← Tasks.await (core.serve endpoint request arguments background)
      core.conclude request background (← served.join)

theorem dispatch_eq_goOn [LawfulMonad m] (core : Core m) (endpoint : Endpoint m)
    (request : Request) :
    core.dispatch (some endpoint) request = core.wayIn request >>= core.goOn endpoint := by
  rw [dispatch_eq]
  congr 1
  funext entered
  obtain ⟨background, request, _ | refusal⟩ := entered <;> rfl

end Programs

variable {σ : Type}

/-- A dispatch runs to its end, or it is given up, and what it waited for goes on by itself. -/
inductive Attempts (core : Core (Routine σ)) (endpoint : Endpoint (Routine σ)) (request : Request) :
    List (Step σ) → Prop where
  | ended {steps : List (Step σ)} {outcome : Outcome Response} :
      (core.dispatch (some endpoint) request).Runs steps outcome →
      Attempts core endpoint request steps
  | givenUp {steps quitting detached : List (Step σ)} {thread : Thread σ Response}
      {orphan : Option (Strand σ)} :
      (Thread.running (core.dispatch (some endpoint) request)).Reaches steps thread →
      thread.Quits orphan quitting → GoesOn orphan detached →
      Attempts core endpoint request (steps ++ quitting ++ detached)

/-- What a dispatch does in a world for some time is an attempt, as far as it has come. -/
theorem attempts_of_runFor (core : Core (Routine σ)) (endpoint : Endpoint (Routine σ))
    (request : Request) (w : World σ) (duration : Nat) :
    ∃ history detached,
      w.kernel.Leads history
        (w.runFor duration (core.dispatch (some endpoint) request)).2.kernel ∧
      Attempts core endpoint request (ownSteps history ++ detached) := by
  have haccounted := World.runFor_accounted w duration (core.dispatch (some endpoint) request)
  generalize w.runFor duration (core.dispatch (some endpoint) request) = done at haccounted
  have hgivenUp : World.GivenUp (.running (core.dispatch (some endpoint) request)) w.kernel
      done.2.kernel → ∃ history detached, w.kernel.Leads history done.2.kernel ∧
        Attempts core endpoint request (ownSteps history ++ detached) := by
    rintro ⟨history, quitting, thread, orphan, hleads, hreaches, hquits⟩
    have hgoesOn : ∃ detached, GoesOn orphan detached := by
      cases orphan with
      | none => exact ⟨[], rfl⟩
      | some strand => exact strand.thread.exists_runs w.kernel.journal
    obtain ⟨detached, hgoesOn⟩ := hgoesOn
    refine ⟨history ++ quitting, detached, hleads, ?_⟩
    rw [ownSteps_append]
    exact .givenUp hreaches hquits hgoesOn
  obtain ⟨finish, last⟩ := done
  cases finish with
  | ended outcome =>
      obtain ⟨history, hleads, hruns⟩ := haccounted
      exact ⟨history, [], hleads, by rw [List.append_nil]; exact .ended hruns⟩
  | late | stuck | endless => exact hgivenUp haccounted

/-- How far a dispatch has come: the steps up to the first call, the calls, the steps of the
handler, the teardowns that were begun, the steps that hand the others over, and what follows.
Once the request is being served, it is served to the end. -/
inductive Attended (core : Core (Routine σ)) (endpoint : Endpoint (Routine σ))
    (request : Request) : List (Step σ) → List (Resolver.Provision σ) → List (Step σ) →
    List (Scope.Release σ) → List (Step σ) → List (Step σ) → Prop where
  | broken {opening : List (Step σ)} {text : String} :
      (core.wayIn request).Runs opening (.panicked text) →
      Attended core endpoint request opening [] [] [] [] []
  | stopped {opening quitting detached : List (Step σ)}
      {thread : Thread σ (Queue × Request × Option Refusal)} {orphan : Option (Strand σ)} :
      (Thread.running (core.wayIn request)).Reaches opening thread →
      thread.Quits orphan quitting → GoesOn orphan detached →
      Attended core endpoint request (opening ++ quitting ++ detached) [] [] [] [] []
  | turnedAway {opening : List (Step σ)} {background : Queue} {entered : Request}
      {refusal : Refusal} (closing : List (Step σ)) :
      (core.wayIn request).Runs opening (.finished (background, entered, some refusal)) →
      Attended core endpoint request opening [] [] [] [] closing
  | unbound {opening : List (Step σ)} {background : Queue} {entered : Request} {e : HttpError}
      (closing : List (Step σ)) :
      (core.wayIn request).Runs opening (.finished (background, entered, none)) →
      endpoint.bind entered = .error e →
      Attended core endpoint request opening [] [] [] [] closing
  | served {opening handling handed : List (Step σ)} {background : Queue} {entered : Request}
      {arguments : Arguments} {calls : List (Resolver.Provision σ)}
      {releases : List (Scope.Release σ)} {ended : Outcome (Except Error Response)}
      (closing : List (Step σ)) :
      (core.wayIn request).Runs opening (.finished (background, entered, none)) →
      endpoint.bind entered = .ok arguments →
      Served core endpoint entered arguments background calls handling releases handed ended →
      Attended core endpoint request opening calls handling releases handed closing

/-- The parts of what a dispatch has done. -/
def Parts (core : Core (Routine σ)) (endpoint : Endpoint (Routine σ)) (request : Request)
    (story : List (Step σ)) : Prop :=
  ∃ opening calls handling releases handed closing,
    story = opening ++ calls.flatMap Resolver.Provision.steps ++ handling ++
      releases.flatMap Scope.Release.steps ++ handed ++ closing ∧
    Attended core endpoint request opening calls handling releases handed closing

/-- A request that is served is served to its end, wherever its dispatch is given up. -/
theorem parts_of_serve {core : Core (Routine σ)} {endpoint : Endpoint (Routine σ)}
    {request entered : Request} {background : Queue} {arguments : Arguments}
    {opening serving : List (Step σ)} {ended : Outcome (Except Error Response)}
    (hin : (core.wayIn request).Runs opening (.finished (background, entered, none)))
    (hbind : endpoint.bind entered = .ok arguments)
    (hserve : (core.serve endpoint entered arguments background).Runs serving ended)
    (closing : List (Step σ)) : Parts core endpoint request (opening ++ serving ++ closing) := by
  obtain ⟨calls, handling, releases, handed, rfl, hserved⟩ :=
    serve_served core endpoint entered arguments background hserve
  exact ⟨opening, calls, handling, releases, handed, closing, by simp,
    .served closing hin hbind hserved⟩

/-- A dispatch that is given up behind the way in. -/
theorem parts_of_goOn {core : Core (Routine σ)} {endpoint : Endpoint (Routine σ)}
    {request entered : Request} {background : Queue} {refusal : Option Refusal}
    {opening last quitting detached : List (Step σ)} {thread : Thread σ Response}
    {orphan : Option (Strand σ)}
    (hin : (core.wayIn request).Runs opening (.finished (background, entered, refusal)))
    (hreaches : (core.goOn endpoint (background, entered, refusal)).Reaches last thread)
    (hquits : thread.Quits orphan quitting) (hgoesOn : GoesOn orphan detached) :
    Parts core endpoint request (opening ++ last ++ quitting ++ detached) := by
  cases refusal with
  | some refusal =>
      exact ⟨opening, [], [], [], [], last ++ quitting ++ detached, by simp, .turnedAway _ hin⟩
  | none =>
      cases hbind : endpoint.bind entered with
      | error e =>
          exact ⟨opening, [], [], [], [], last ++ quitting ++ detached, by simp,
            .unbound _ hin hbind⟩
      | ok arguments =>
          simp only [goOn, hbind] at hreaches
          rcases hreaches.of_bind with ⟨inner, hinner, rfl⟩ |
            ⟨_, serving, closing, rfl, hawait, -⟩
          · rw [Thread.quits_bind] at hquits
            rcases Routine.reaches_await hinner with ⟨task, htask, rfl⟩ | ⟨ended, hserve, rfl⟩
            · -- The dispatch waits: what serves the request goes on by itself.
              obtain ⟨rfl, rfl⟩ := hquits
              obtain ⟨ended, hrest⟩ := hgoesOn
              have hparts := parts_of_serve hin hbind (htask.runs hrest) []
              simpa using hparts
            · obtain ⟨rfl, rfl⟩ := hquits
              have hnone : detached = [] := hgoesOn
              have hparts := parts_of_serve hin hbind hserve []
              simpa [hnone] using hparts
          · obtain ⟨ended, hserve, -⟩ := (Routine.runs_await _ _ _).mp hawait
            have hparts := parts_of_serve hin hbind hserve (closing ++ quitting ++ detached)
            simpa using hparts

theorem Attempts.parts {core : Core (Routine σ)} {endpoint : Endpoint (Routine σ)}
    {request : Request} {story : List (Step σ)} (hattempts : Attempts core endpoint request story) :
    Parts core endpoint request story := by
  cases hattempts with
  | ended hruns =>
      obtain ⟨opening, calls, handling, releases, handed, closing, hsteps, hdispatched⟩ :=
        dispatch_dispatched core endpoint request hruns
      refine ⟨opening, calls, handling, releases, handed, closing, hsteps, ?_⟩
      cases hdispatched with
      | broken hpanic => exact .broken hpanic
      | turnedAway hin _ => exact .turnedAway closing hin
      | unbound hin hbind _ => exact .unbound closing hin hbind
      | served hin hbind hserved => exact .served _ hin hbind hserved
  | @givenUp steps quitting detached thread orphan hreaches hquits hgoesOn =>
      rw [dispatch_eq_goOn] at hreaches
      rcases hreaches with ⟨rfl, rfl⟩ | hreaches
      · obtain ⟨rfl, rfl⟩ := hquits
        have hnever : (Thread.running (core.wayIn request)).Quits none ([] : List (Step σ)) :=
          ⟨rfl, rfl⟩
        exact ⟨_, [], [], [], [], [], by simp, .stopped (Thread.reaches_self _) hnever hgoesOn⟩
      · rcases hreaches.of_bind with ⟨inner, hinner, rfl⟩ |
          ⟨⟨background, entered, refusal⟩, opening, last, rfl, hin, hlast⟩
        · rw [Thread.quits_bind] at hquits
          exact ⟨_, [], [], [], [], [], by simp, .stopped (.inr hinner) hquits hgoesOn⟩
        · exact parts_of_goOn hin hlast hquits hgoesOn

/-! ## The order of the teardowns -/

/-- These teardowns, in the order in which they are run, are those of calls, each of another one.
Where one call has drawn on the value of another, its teardown comes first. -/
def Nested (stops : List (Resolver.Stop (Routine σ))) (calls : List (Resolver.Provision σ))
    (releases : List (Scope.Release σ)) : Prop :=
  ∃ places : List Nat,
    List.Forall₂ (fun release place => ∃ call, calls[place]? = some call ∧
      call.teardown? = some (release.name, release.teardown)) releases places ∧
    places.Nodup ∧
    ∀ outer ∈ places, ∀ inner ∈ places, Resolver.DrawnOn stops outer inner →
      [inner, outer].Sublist places

/-- The calls that what a scope holds comes from, the last one first. -/
theorem exists_places (calls : List (Resolver.Provision σ)) :
    ∃ places : List Nat,
      List.Forall₂ (fun entry place => ∃ call, calls[place]? = some call ∧
        call.teardown? = some entry) (calls.filterMap Resolver.Provision.teardown?).reverse places ∧
      places.Pairwise (· > ·) ∧ ∀ place ∈ places, place < calls.length := by
  induction calls using List.reverseRecOn with
  | nil => exact ⟨[], .nil, .nil, by simp⟩
  | append_singleton calls call ih =>
      obtain ⟨places, hplaces, hfalling, hbound⟩ := ih
      have hkept : List.Forall₂ (fun entry place => ∃ other,
          (calls ++ [call])[place]? = some other ∧ other.teardown? = some entry)
          (calls.filterMap Resolver.Provision.teardown?).reverse places := by
        refine hplaces.imp ?_
        rintro entry place ⟨other, hother, hentry⟩
        have hlt := (List.getElem?_eq_some_iff.mp hother).1
        exact ⟨other, by rw [List.getElem?_append_left hlt, hother], hentry⟩
      have hlater : ∀ place ∈ places, place < (calls ++ [call]).length := by
        intro place hplace
        rw [List.length_append]
        exact Nat.lt_add_right _ (hbound place hplace)
      cases hteardown : call.teardown? with
      | none =>
          rw [List.filterMap_append, List.filterMap_cons_none hteardown, List.filterMap_nil,
            List.append_nil]
          exact ⟨places, hkept, hfalling, hlater⟩
      | some entry =>
          rw [List.filterMap_append, List.filterMap_cons_some hteardown, List.filterMap_nil,
            List.reverse_append, List.reverse_singleton, List.singleton_append]
          refine ⟨calls.length :: places, .cons ⟨call, by simp, hteardown⟩ hkept, ?_, ?_⟩
          · exact List.pairwise_cons.mpr ⟨hbound, hfalling⟩
          · intro place hplace
            rcases List.mem_cons.mp hplace with rfl | hplace
            · simp
            · exact hlater place hplace

/-- What comes later in a list that falls is less, so that the greater of two comes first. -/
theorem sublist_of_falling {places : List Nat} (hfalling : places.Pairwise (· > ·))
    {outer inner : Nat} (houter : outer ∈ places) (hinner : inner ∈ places)
    (hlt : outer < inner) : [inner, outer].Sublist places := by
  induction hfalling with
  | nil => simp at houter
  | @cons place places hbelow _ ih =>
      rcases List.mem_cons.mp hinner with rfl | hinner
      · have hrest : outer ∈ places := (List.mem_cons.mp houter).resolve_left (Nat.ne_of_lt hlt)
        exact (List.singleton_sublist.mpr hrest).cons_cons inner
      · have houter : outer ∈ places := by
          refine (List.mem_cons.mp houter).resolve_left ?_
          intro hsame
          have hgt := hbelow inner hinner
          omega
        exact (ih houter hinner).cons place

/-- The last calls are released first, so that what they have drawn on is released behind them. -/
theorem nested_of_newest {overrides : Overrides} {stops : List (Resolver.Stop (Routine σ))}
    {calls : List (Resolver.Provision σ)} (halong : Resolver.Along overrides [] stops calls)
    {releases : List (Scope.Release σ)}
    (hreleases : releases.map (fun release => (release.name, release.teardown)) <+:
      (calls.filterMap Resolver.Provision.teardown?).reverse) : Nested stops calls releases := by
  obtain ⟨places, hplaces, hfalling, hbound⟩ := exists_places calls
  -- Only a beginning of what the scope holds may have been released.
  have hfirst := List.forall₂_take releases.length hplaces
  have htake : ((calls.filterMap Resolver.Provision.teardown?).reverse).take releases.length =
      releases.map fun release => (release.name, release.teardown) := by
    rw [List.prefix_iff_eq_take.mp hreleases, List.length_map]
  rw [htake, List.forall₂_map_left_iff] at hfirst
  have hsublist := List.take_sublist releases.length places
  have htaken := hfalling.sublist hsublist
  refine ⟨places.take releases.length, hfirst, ?_, ?_⟩
  · exact htaken.imp fun hgt => Nat.ne_of_gt hgt
  · intro outer houter inner hinner hdrawn
    have hplace := hbound inner (hsublist.subset hinner)
    exact sublist_of_falling htaken houter hinner (halong.lt_of_drawnOn hplace hdrawn)

/-- What a request that is served releases itself, and what it hands over, is released in the
order that the scope holds it. -/
theorem Served.nested {taken : Nat} {ds : List (Dependency (Routine σ))}
    (sound : Dependency.Sound taken ds) {core : Core (Routine σ)} {endpoint : Endpoint (Routine σ)}
    (hdependencies : ∀ reference ∈ endpoint.dependencies, reference.target ∈ ds)
    {request : Request} {arguments : Arguments} {background : Queue}
    {calls : List (Resolver.Provision σ)} {handling handed : List (Step σ)}
    {releases : List (Scope.Release σ)} {outcome : Outcome (Except Error Response)}
    (hserved : Served core endpoint request arguments background calls handling releases handed
      outcome) :
    Resolver.Along core.overrides [] (Resolver.flow core.overrides endpoint.dependencies) calls ∧
    ∀ later, Scope.Inherits (Scope.handed? handed) later →
      ∃ inherited, later = inherited.flatMap Scope.Release.steps ∧
        Nested (Resolver.flow core.overrides endpoint.dependencies) calls
          (releases ++ inherited) := by
  -- However serving has ended, the scope holds the teardowns of the calls, and what it has not
  -- released is dropped.
  have hheld : ∃ (result : Except Halt (List (String × Datum))) (ledger : Ledger)
      (rest : List (String × Holding)),
      Resolver.ResolvesEach ⟨request, core.overrides⟩ [] endpoint.dependencies {} calls result
        ledger ∧
      ledger.scope.entries.map
          (fun entry => (entry.1, Dependency.teardownAmong endpoint.dependencies entry.2)) =
        releases.map (fun release => (release.name, release.teardown)) ++
          rest.map (fun entry =>
            (entry.1, Dependency.teardownAmong endpoint.dependencies entry.2)) ∧
      (Scope.dropEntries (Dependency.teardownAmong endpoint.dependencies) rest).Runs handed
        (.finished ()) := by
    cases hserved with
    | panicked hresolves hdrop => exact ⟨_, _, _, hresolves, rfl, hdrop⟩
    | failed hresolves hcloses =>
        obtain ⟨rest, hentries, hdrop⟩ := hcloses.exists_dropped
        exact ⟨_, _, rest, hresolves, hentries, hdrop⟩
    | handled hresolves _ _ hcloses =>
        obtain ⟨rest, hentries, hdrop⟩ := hcloses.exists_dropped
        exact ⟨_, _, rest, hresolves, hentries, hdrop⟩
  obtain ⟨result, ledger, rest, hresolves, hentries, hdrop⟩ := hheld
  have halong := hresolves.along_flow
  refine ⟨halong, ?_⟩
  intro later hinherits
  obtain ⟨inherited, ended, hlater, hreleases⟩ := Scope.releases_of_inherits _ hdrop hinherits
  refine ⟨inherited, hlater, nested_of_newest halong ?_⟩
  rw [← teardowns_of_resolves sound hdependencies hresolves, hentries, List.map_append]
  exact (List.prefix_append_right_inj _).mpr hreleases.prefix_entries

theorem nested_nil (stops : List (Resolver.Stop (Routine σ)))
    (calls : List (Resolver.Provision σ)) : Nested stops calls [] :=
  ⟨[], .nil, List.nodup_nil, by simp⟩

/-- In every dispatch, to its end or given up, the calls draw on each other along the flow, and
the teardown of a call is run before those of all calls that it has drawn on, be it by the
dispatch or by the task that it hands the rest to. -/
theorem dispatch_nests {taken : Nat} {ds : List (Dependency (Routine σ))}
    (built : Dependency.Built taken ds) (core : Core (Routine σ)) (endpoint : Endpoint (Routine σ))
    (hdependencies : ∀ reference ∈ endpoint.dependencies, reference.target ∈ ds)
    (request : Request) {story : List (Step σ)}
    (hattempts : Attempts core endpoint request story) :
    ∃ opening calls handling releases handed closing,
      story = opening ++ calls.flatMap Resolver.Provision.steps ++ handling ++
        releases.flatMap Scope.Release.steps ++ handed ++ closing ∧
      Attended core endpoint request opening calls handling releases handed closing ∧
      Resolver.Along core.overrides [] (Resolver.flow core.overrides endpoint.dependencies)
        calls ∧
      ∀ later, Scope.Inherits (Scope.handed? handed) later →
        ∃ inherited, later = inherited.flatMap Scope.Release.steps ∧
          Nested (Resolver.flow core.overrides endpoint.dependencies) calls
            (releases ++ inherited) := by
  obtain ⟨opening, calls, handling, releases, handed, closing, hstory, hattended⟩ :=
    hattempts.parts
  refine ⟨opening, calls, handling, releases, handed, closing, hstory, hattended, ?_⟩
  cases hattended with
  | served _ _ _ hserved => exact hserved.nested built.sound hdependencies
  | broken | stopped | turnedAway | unbound =>
      refine ⟨.upTo [] _, ?_⟩
      rintro later rfl
      exact ⟨[], rfl, nested_nil _ _⟩

/-! ## A chain through a value that is not released -/

/-- A scoped dependency that notes when its value is made and when it is released. -/
def heldOpen (fresh : DependencyId) (name : String) : Dependency (Routine (List String)) :=
  .node fresh name {
    provide := fun _ => do note ("open " ++ name); return .ok (.text name)
    release := some fun _ => ⟨pure (), note ("close " ++ name)⟩ } []

def connection : Dependency (Routine (List String)) := heldOpen ⟨0⟩ "connection"

def bareRepository : Dependency (Routine (List String)) :=
  .constant ⟨1⟩ "repository" (.text "repository")

def repository : Dependency (Routine (List String)) :=
  bareRepository.param ⟨2⟩ ⟨"connection", connection, true⟩

def bareAudit : Dependency (Routine (List String)) := heldOpen ⟨3⟩ "audit"

def audit : Dependency (Routine (List String)) :=
  bareAudit.param ⟨4⟩ ⟨"repository", repository, false⟩

theorem built_audit :
    Dependency.Built 5 [audit, bareAudit, repository, bareRepository, connection] :=
  .param (.make "audit" _ (.param (.make "repository" _ (.make "connection" _ .none le_rfl) le_rfl)
    (by simp) (by simp) le_rfl) le_rfl) (by simp [bareAudit, heldOpen]) (by simp) le_rfl

/-- The connection is made for a parameter of its own, before the audit comes to it. -/
def auditReferences : List (Reference (Dependency (Routine (List String)))) :=
  [⟨"connection", connection, true⟩, ⟨"audit", audit, true⟩]

example : (Resolver.flow [] auditReferences).map (fun stop =>
      (stop.dependency.name, stop.inputs.map Resolver.Input.source)) =
    [("connection", []), ("repository", [some 0]), ("audit", [some 1])] := by
  decide

example : notes? auditReferences =
    some ["open connection", "open audit", "handled", "close audit", "close connection",
      "after"] := by
  decide +kernel

/-- The audit has drawn on the connection through the repository. -/
theorem drawnOn_audit : Resolver.DrawnOn (Resolver.flow [] auditReferences) 0 2 :=
  .tail (.single ⟨_, rfl, _, List.mem_singleton_self _, rfl⟩)
    ⟨_, rfl, _, List.mem_singleton_self _, rfl⟩

theorem dispatch_nests_audit :
    Dependency.Built 5 [audit, bareAudit, repository, bareRepository, connection] ∧
    (∀ reference ∈ (notingEndpoint auditReferences).dependencies,
      reference.target ∈ [audit, bareAudit, repository, bareRepository, connection]) ∧
    Resolver.DrawnOn (Resolver.flow [] auditReferences) 0 2 ∧
    ∃ story, Attempts notingCore (notingEndpoint auditReferences) { method := .get, path := "/" }
        story ∧
      ∃ opening calls handling releases handed closing,
        story = opening ++ calls.flatMap Resolver.Provision.steps ++ handling ++
          releases.flatMap Scope.Release.steps ++ handed ++ closing ∧
        Resolver.Along [] [] (Resolver.flow [] auditReferences) calls ∧
        ∀ later, Scope.Inherits (Scope.handed? handed) later →
          ∃ inherited, later = inherited.flatMap Scope.Release.steps ∧
            Nested (Resolver.flow [] auditReferences) calls (releases ++ inherited) := by
  have hdependencies : ∀ reference ∈ (notingEndpoint auditReferences).dependencies,
      reference.target ∈ [audit, bareAudit, repository, bareRepository, connection] := by
    simp [notingEndpoint, auditReferences]
  obtain ⟨story, outcome, hruns⟩ := Routine.exists_runs { state := [] }
    (notingCore.dispatch (some (notingEndpoint auditReferences)) { method := .get, path := "/" })
  have hattempts := Attempts.ended hruns
  obtain ⟨opening, calls, handling, releases, handed, closing, hstory, -, halong, hnested⟩ :=
    dispatch_nests built_audit notingCore _ hdependencies _ hattempts
  exact ⟨built_audit, hdependencies, drawnOn_audit, story, hattempts, opening, calls, handling,
    releases, handed, closing, hstory, halong, hnested⟩

end Core
end WebApp
