import Mathlib.Tactic
import WebApp.Proofs.Dependency.Graph
import WebApp.Proofs.Task.Runs

/-!
# Runs of the resolver

A run of the resolver is made of calls of providers, one after another, and of nothing else:
the cache and the overrides only decide which of them are made.
-/

namespace WebApp
namespace Resolver

universe u

section Equations

variable {m : Type → Type u}

/-- The ledger with what a provider has given. -/
def recorded (d : Dependency m) (isCached : Bool) (value : Datum) (ledger : Ledger) : Ledger :=
  let ledger :=
    if d.provider.release.isSome then
      { ledger with scope := ledger.scope.push d.name ⟨d.id, value⟩ }
    else
      ledger
  if isCached then { ledger with cache := Assoc.insert d.id value ledger.cache } else ledger

/-- What the end of a provider's call means for the resolution. -/
def concluded (d : Dependency m) (isCached : Bool) (ledger : Ledger) :
    Outcome (Except Error Datum) → Except Halt Datum × Ledger
  | .finished (.ok value) => (.ok value, recorded d isCached value ledger)
  | .finished (.error e) => (.error (.error e), ledger)
  | .panicked text => (.error (.panic text), ledger)

theorem run_bind [Monad m] {τ α β : Type} (first : ExceptT Halt (StateT τ m) α)
    (next : α → ExceptT Halt (StateT τ m) β) (s : τ) :
    (first >>= next).run.run s = (do
      match ← first.run.run s with
      | (.ok value, s) => (next value).run.run s
      | (.error halt, s) => pure (.error halt, s)) := by
  simp only [ExceptT.run_bind, StateT.run_bind]
  congr 1
  funext result
  obtain ⟨result, s⟩ := result
  cases result <;> rfl

theorem run_resolveEach_nil [Monad m] [Tasks m] (setting : Setting)
    (resolving : List DependencyId) (ledger : Ledger) :
    (resolveEach (m := m) setting resolving []).run.run ledger = pure (.ok [], ledger) :=
  rfl

theorem run_resolveEach_cons [Monad m] [Tasks m] (setting : Setting) (resolving : List DependencyId)
    (reference : Reference (Dependency m)) (rest : List (Reference (Dependency m)))
    (ledger : Ledger) :
    (resolveEach setting resolving (reference :: rest)).run.run ledger = (do
      match ← (resolveOne setting resolving reference.target reference.isCached).run.run ledger with
      | (.ok value, ledger) => do
        match ← (resolveEach setting resolving rest).run.run ledger with
        | (.ok entries, ledger) => pure (.ok ((reference.name, value) :: entries), ledger)
        | (.error halt, ledger) => pure (.error halt, ledger)
      | (.error halt, ledger) => pure (.error halt, ledger)) := by
  obtain ⟨name, target, isCached⟩ := reference
  simp only [resolveEach, run_bind]
  congr 1
  funext result
  obtain ⟨result, ledger⟩ := result
  cases result with
  | error halt => rfl
  | ok value =>
      simp only []
      congr 1
      funext result
      obtain ⟨result, ledger⟩ := result
      cases result <;> rfl

variable [Monad m] [LawfulMonad m]

theorem run_get {τ : Type} (s : τ) :
    (get : ExceptT Halt (StateT τ m) τ).run.run s = pure (.ok s, s) := by
  change (Except.ok <$> (get : StateT τ m τ)).run s = _
  simp

theorem run_record (d : Dependency m) (isCached : Bool) (value : Datum) (ledger : Ledger) :
    (record d isCached value : Resolution m Unit).run.run ledger =
      pure (.ok (), recorded d isCached value ledger) := by
  change (Except.ok <$> (modify (recorded d isCached value) : StateT Ledger m PUnit)).run ledger = _
  simp

variable [Tasks m]

theorem run_callProvider (provider : Provider m) (call : Call) (ledger : Ledger) :
    (callProvider provider call).run.run ledger = (do
      match ← Tasks.attempt (provider.provide call) with
      | .finished (.ok value) => pure (.ok value, ledger)
      | .finished (.error e) => pure (.error (.error e), ledger)
      | .panicked text => pure (.error (.panic text), ledger)) := by
  have hlift : (liftM (Tasks.attempt (provider.provide call)) :
      Resolution m (Outcome (Except Error Datum))).run.run ledger =
      (fun provided => (.ok provided, ledger)) <$> Tasks.attempt (provider.provide call) := by
    simp [liftM, monadLift, MonadLift.monadLift, ExceptT.lift]
  rw [callProvider, run_bind, hlift, bind_map_left]
  congr 1
  funext provided
  rcases provided with ⟨⟨e⟩ | ⟨value⟩⟩ | ⟨text⟩ <;> rfl

/-- What resolving one reference comes to: nothing, or its parameters and a call. -/
theorem run_resolveOne (setting : Setting) (resolving : List DependencyId)
    (id : DependencyId) (name : String) (provider : Provider m)
    (params : List (Reference (Dependency m))) (isCached : Bool) (ledger : Ledger) :
    (resolveOne setting resolving (.node id name provider params) isCached).run.run ledger =
      match known? setting id isCached ledger with
      | some value => pure (.ok value, ledger)
      | none =>
        if resolving.contains id then
          pure (.error (.error (DependencyError.cycle name).toError), ledger)
        else (do
          match ← (resolveEach setting (id :: resolving) params).run.run ledger with
          | (.ok entries, ledger) =>
            let provided ← Tasks.attempt (provider.provide ⟨setting.request, .ofList entries⟩)
            pure (concluded (.node id name provider params) isCached ledger provided)
          | (.error halt, ledger) => pure (.error halt, ledger)) := by
  rw [resolveOne, run_bind, run_get, pure_bind]
  dsimp only
  cases known? setting id isCached ledger with
  | some value => rfl
  | none =>
      dsimp only
      by_cases hcycle : resolving.contains id = true
      · rw [if_pos hcycle, if_pos hcycle]
        rfl
      · rw [if_neg hcycle, if_neg hcycle, run_bind]
        congr 1
        funext result
        obtain ⟨result, ledger⟩ := result
        cases result with
        | error halt => rfl
        | ok entries =>
            simp only [run_bind, run_callProvider, bind_assoc]
            congr 1
            funext provided
            rcases provided with ⟨⟨e⟩ | ⟨value⟩⟩ | ⟨text⟩
            · simp [concluded]
            · simp only [pure_bind, concluded, run_record]
              rfl
            · simp [concluded]

theorem run_resolveOne_eq (setting : Setting) (resolving : List DependencyId) (d : Dependency m)
    (isCached : Bool) (ledger : Ledger) :
    (resolveOne setting resolving d isCached).run.run ledger =
      match known? setting d.id isCached ledger with
      | some value => pure (.ok value, ledger)
      | none =>
        if resolving.contains d.id then
          pure (.error (.error (DependencyError.cycle d.name).toError), ledger)
        else (do
          match ← (resolveEach setting (d.id :: resolving) d.params).run.run ledger with
          | (.ok entries, ledger) =>
            let provided ← Tasks.attempt (d.provider.provide ⟨setting.request, .ofList entries⟩)
            pure (concluded d isCached ledger provided)
          | (.error halt, ledger) => pure (.error halt, ledger)) := by
  cases d
  exact run_resolveOne ..

end Equations

/-! ## What a run comes to -/

variable {σ : Type}

/-- A call of a provider, and how it went. -/
structure Provision (σ : Type) : Type 1 where
  dependency : Dependency (Routine σ)
  call : Call
  steps : List (Step σ)
  outcome : Outcome (Except Error Datum)
  runs : (dependency.provider.provide call).Runs steps outcome

mutual

/-- With these calls, one after another, a dependency comes to this result. -/
inductive ResolvesOne (setting : Setting) : List DependencyId → Dependency (Routine σ) → Bool →
    Ledger → List (Provision σ) → Except Halt Datum → Ledger → Prop where
  | known {resolving : List DependencyId} {d : Dependency (Routine σ)} {isCached : Bool}
      {ledger : Ledger} {value : Datum} :
      known? setting d.id isCached ledger = some value →
      ResolvesOne setting resolving d isCached ledger [] (.ok value) ledger
  | cycle {resolving : List DependencyId} {d : Dependency (Routine σ)} {isCached : Bool}
      {ledger : Ledger} :
      known? setting d.id isCached ledger = none → d.id ∈ resolving →
      ResolvesOne setting resolving d isCached ledger []
        (.error (.error (DependencyError.cycle d.name).toError)) ledger
  | params {resolving : List DependencyId} {d : Dependency (Routine σ)} {isCached : Bool}
      {ledger after : Ledger} {earlier : List (Provision σ)} {halt : Halt} :
      known? setting d.id isCached ledger = none → d.id ∉ resolving →
      ResolvesEach setting (d.id :: resolving) d.params ledger earlier (.error halt) after →
      ResolvesOne setting resolving d isCached ledger earlier (.error halt) after
  | called {resolving : List DependencyId} {d : Dependency (Routine σ)} {isCached : Bool}
      {ledger middle : Ledger} {earlier : List (Provision σ)} {entries : List (String × Datum)}
      (provision : Provision σ) :
      known? setting d.id isCached ledger = none → d.id ∉ resolving →
      ResolvesEach setting (d.id :: resolving) d.params ledger earlier (.ok entries) middle →
      provision.dependency = d → provision.call = ⟨setting.request, .ofList entries⟩ →
      ResolvesOne setting resolving d isCached ledger (earlier ++ [provision])
        (concluded d isCached middle provision.outcome).1
        (concluded d isCached middle provision.outcome).2

/-- With these calls, one after another, references come to this result. -/
inductive ResolvesEach (setting : Setting) : List DependencyId →
    List (Reference (Dependency (Routine σ))) → Ledger → List (Provision σ) →
    Except Halt (List (String × Datum)) → Ledger → Prop where
  | nil (resolving : List DependencyId) (ledger : Ledger) :
      ResolvesEach setting resolving [] ledger [] (.ok []) ledger
  | stop {resolving : List DependencyId} {reference : Reference (Dependency (Routine σ))}
      {ledger after : Ledger} {calls : List (Provision σ)} {halt : Halt}
      (references : List (Reference (Dependency (Routine σ)))) :
      ResolvesOne setting resolving reference.target reference.isCached ledger calls
        (.error halt) after →
      ResolvesEach setting resolving (reference :: references) ledger calls (.error halt) after
  | next {resolving : List DependencyId} {reference : Reference (Dependency (Routine σ))}
      {references : List (Reference (Dependency (Routine σ)))} {ledger middle after : Ledger}
      {earlier later : List (Provision σ)} {value : Datum}
      {result : Except Halt (List (String × Datum))} :
      ResolvesOne setting resolving reference.target reference.isCached ledger earlier
        (.ok value) middle →
      ResolvesEach setting resolving references middle later result after →
      ResolvesEach setting resolving (reference :: references) ledger (earlier ++ later)
        (result.map ((reference.name, value) :: ·)) after

end

/-- A run ends with a result and a ledger, and has the steps of some calls and no others. -/
def ComesTo {α : Type} (resolves : List (Provision σ) → Except Halt α → Ledger → Prop)
    (steps : List (Step σ)) (outcome : Outcome (Except Halt α × Ledger)) : Prop :=
  ∃ calls result after, outcome = .finished (result, after) ∧
    steps = calls.flatMap Provision.steps ∧ resolves calls result after

/-- What follows a resolution follows its result, as a resolution does not panic. -/
theorem ComesTo.follow {α β : Type}
    {resolves : List (Provision σ) → Except Halt α → Ledger → Prop}
    {first : Routine σ (Except Halt α × Ledger)} {next : Except Halt α × Ledger → Routine σ β}
    {steps : List (Step σ)} {outcome : Outcome β}
    (hfirst : ∀ steps outcome, first.Runs steps outcome → ComesTo resolves steps outcome)
    (hruns : (first >>= next).Runs steps outcome) :
    ∃ calls result after rest, resolves calls result after ∧
      steps = calls.flatMap Provision.steps ++ rest ∧ (next (result, after)).Runs rest outcome := by
  rw [Routine.runs_bind] at hruns
  rcases hruns with ⟨text, hpanic, -⟩ | ⟨_, before, rest, rfl, hbefore, hrest⟩
  · obtain ⟨_, _, _, hnever, -⟩ := hfirst _ _ hpanic
    exact absurd hnever (by simp)
  · obtain ⟨calls, result, after, hfinished, rfl, hresolves⟩ := hfirst _ _ hbefore
    simp only [Outcome.finished.injEq] at hfinished
    subst hfinished
    exact ⟨calls, result, after, rest, hresolves, rfl, hrest⟩

mutual

theorem resolveOne_comesTo (setting : Setting) (resolving : List DependencyId)
    (d : Dependency (Routine σ)) (isCached : Bool) (ledger : Ledger) (steps : List (Step σ))
    (outcome : Outcome (Except Halt Datum × Ledger))
    (hruns : ((resolveOne setting resolving d isCached).run.run ledger).Runs steps outcome) :
    ComesTo (ResolvesOne setting resolving d isCached ledger) steps outcome := by
  match d with
  | .node id name provider params =>
      rw [run_resolveOne] at hruns
      cases hknown : known? setting id isCached ledger with
      | some value =>
          rw [hknown] at hruns
          obtain ⟨rfl, rfl⟩ := hruns
          exact ⟨[], .ok value, ledger, rfl, rfl, .known hknown⟩
      | none =>
          rw [hknown] at hruns
          dsimp only at hruns
          by_cases hcycle : resolving.contains id = true
          · rw [if_pos hcycle] at hruns
            obtain ⟨rfl, rfl⟩ := hruns
            exact ⟨[], _, ledger, rfl, rfl, .cycle hknown (List.contains_iff_mem.mp hcycle)⟩
          · rw [if_neg hcycle] at hruns
            have hfresh : id ∉ resolving := fun hmem => hcycle (List.contains_iff_mem.mpr hmem)
            obtain ⟨earlier, result, middle, last, hparams, rfl, hlast⟩ :=
              ComesTo.follow (resolveEach_comesTo setting (id :: resolving) params ledger) hruns
            cases result with
            | error halt =>
                obtain ⟨rfl, rfl⟩ := hlast
                exact ⟨earlier, .error halt, middle, rfl, by simp, .params hknown hfresh hparams⟩
            | ok entries =>
                dsimp only at hlast
                rw [Tasks.attempt, Routine.runs_guarded_bind] at hlast
                obtain ⟨provided, call, rest, rfl, hprovide, rfl, rfl⟩ := hlast
                let provision : Provision σ := ⟨.node id name provider params,
                  ⟨setting.request, .ofList entries⟩, call, provided, hprovide⟩
                have hcalled : ResolvesOne setting resolving (.node id name provider params)
                    isCached ledger (earlier ++ [provision])
                    (concluded (.node id name provider params) isCached middle provided).1
                    (concluded (.node id name provider params) isCached middle provided).2 :=
                  .called provision hknown hfresh hparams rfl rfl
                exact ⟨earlier ++ [provision], _, _, rfl, by simp [provision], hcalled⟩

theorem resolveEach_comesTo (setting : Setting) (resolving : List DependencyId)
    (references : List (Reference (Dependency (Routine σ)))) (ledger : Ledger)
    (steps : List (Step σ)) (outcome : Outcome (Except Halt (List (String × Datum)) × Ledger))
    (hruns : ((resolveEach setting resolving references).run.run ledger).Runs steps outcome) :
    ComesTo (ResolvesEach setting resolving references ledger) steps outcome := by
  match references with
  | [] =>
      rw [run_resolveEach_nil, Routine.runs_pure] at hruns
      obtain ⟨rfl, rfl⟩ := hruns
      exact ⟨[], .ok [], ledger, rfl, rfl, .nil resolving ledger⟩
  | ⟨name, target, isCached⟩ :: rest =>
      rw [run_resolveEach_cons] at hruns
      obtain ⟨earlier, one, middle, last, hone, rfl, hlast⟩ :=
        ComesTo.follow (resolveOne_comesTo setting resolving target isCached ledger) hruns
      cases one with
      | error halt =>
          obtain ⟨rfl, rfl⟩ := hlast
          exact ⟨earlier, .error halt, middle, rfl, by simp, .stop rest hone⟩
      | ok value =>
          dsimp only at hlast
          obtain ⟨later, result, after, nothing, hrest, rfl, hend⟩ :=
            ComesTo.follow (resolveEach_comesTo setting resolving rest middle) hlast
          have hnext : ResolvesEach setting resolving (⟨name, target, isCached⟩ :: rest) ledger
              (earlier ++ later) (result.map ((name, value) :: ·)) after := .next hone hrest
          refine ⟨earlier ++ later, _, after, ?_, ?_, hnext⟩
          · cases result <;> exact hend.2
          · cases result <;> simp [hend.1]

end

theorem run_resolve (setting : Setting)
    (references : List (Reference (Dependency (Routine σ)))) (ledger : Ledger) :
    (resolve setting references).run.run ledger = (do
      let (result, after) ← (resolveEach setting [] references).run.run ledger
      pure (result.map .ofList, after)) := by
  rw [resolve, run_bind]
  congr 1
  funext result
  obtain ⟨result, after⟩ := result
  cases result <;> rfl

/-- A dependency that only computes is called, and that is all. -/
theorem resolve_ofFunction_gives {setting : Setting} {fresh : DependencyId} {isCached : Bool}
    {ledger : Ledger} (hknown : known? setting fresh isCached ledger = none)
    (param name : String) (provide : Call → Except Error Datum) :
    Routine.Gives
      ((resolve (m := Routine σ) setting
        [⟨param, .ofFunction fresh name provide, isCached⟩]).run.run ledger)
      (match provide ⟨setting.request, .ofList []⟩ with
        | .ok value => (.ok (.ofList [(param, value)]),
            recorded (m := Routine σ) (.ofFunction fresh name provide) isCached value ledger)
        | .error e => (.error (.error e), ledger)) := by
  have hcalled : Routine.Gives
      (Tasks.attempt (m := Routine σ) (pure (provide ⟨setting.request, .ofList []⟩)))
      (.finished (provide ⟨setting.request, .ofList []⟩)) := (Routine.gives_pure _).attempt
  rw [run_resolve, run_resolveEach_cons, Dependency.ofFunction, run_resolveOne, hknown]
  simp only [List.contains_nil, Bool.false_eq_true, if_false, run_resolveEach_nil, pure_bind]
  cases hprovide : provide ⟨setting.request, .ofList []⟩ with
  | error _ | ok _ =>
      rw [hprovide] at hcalled
      exact ((hcalled.bind (Routine.gives_pure _)).bind (Routine.gives_pure _)).bind
        (Routine.gives_pure _)

theorem resolve_comesTo (setting : Setting)
    (references : List (Reference (Dependency (Routine σ)))) (ledger : Ledger)
    (steps : List (Step σ)) (outcome : Outcome (Except Halt Resolved × Ledger))
    (hruns : ((resolve setting references).run.run ledger).Runs steps outcome) :
    ComesTo (fun calls result after => ∃ entries,
      ResolvesEach setting [] references ledger calls entries after ∧
        result = entries.map .ofList) steps outcome := by
  rw [run_resolve] at hruns
  obtain ⟨calls, entries, after, rest, hresolves, rfl, hrest⟩ :=
    ComesTo.follow (resolveEach_comesTo setting [] references ledger) hruns
  obtain ⟨rfl, rfl⟩ := hrest
  exact ⟨calls, _, after, rfl, by simp, entries, hresolves, rfl⟩

/-! ## What a request holds -/

namespace Provision

def Panicked (provision : Provision σ) : Prop :=
  ∃ text, provision.outcome = .panicked text

/-- What the ledger holds after a call that has succeeded, when the provider is scoped. -/
def held? (provision : Provision σ) : Option (String × Holding) :=
  match provision.outcome with
  | .finished (.ok value) =>
    if provision.dependency.provider.release.isSome then
      some (provision.dependency.name, ⟨provision.dependency.id, value⟩)
    else none
  | _ => none

/-- The teardown of a call that has succeeded, when the provider is scoped. -/
def teardown? (provision : Provision σ) : Option (String × Teardown (Routine σ)) :=
  match provision.outcome with
  | .finished (.ok value) =>
    provision.dependency.provider.release.map fun release =>
      (provision.dependency.name, release value)
  | _ => none

end Provision

/-- What calls leave behind: each is a call of a dependency that is needed, each that
succeeded and is scoped is held, the newest first, and the resolution panics with a call. -/
structure Accounts {α : Type} (needed : Dependency (Routine σ) → Prop) (ledger : Ledger)
    (calls : List (Provision σ)) (result : Except Halt α) (after : Ledger) : Prop where
  needed : ∀ call ∈ calls, needed call.dependency
  entries : after.scope.entries =
    (calls.filterMap Provision.held?).reverse ++ ledger.scope.entries
  panics : (∃ text, result = .error (.panic text)) ↔ ∃ call ∈ calls, call.Panicked

theorem Accounts.none {α : Type} {needed : Dependency (Routine σ) → Prop} {ledger : Ledger}
    {result : Except Halt α} (hresult : ∀ text, result ≠ .error (.panic text)) :
    Accounts needed ledger [] result ledger :=
  ⟨by simp, by simp, by simp [hresult]⟩

theorem Accounts.imp {α : Type} {needed wanted : Dependency (Routine σ) → Prop}
    {ledger after : Ledger} {calls : List (Provision σ)} {result : Except Halt α}
    (accounts : Accounts needed ledger calls result after) (himp : ∀ d, needed d → wanted d) :
    Accounts wanted ledger calls result after :=
  ⟨fun call hcall => himp _ (accounts.needed call hcall), accounts.entries, accounts.panics⟩

theorem Accounts.head {α : Type} {reference : Reference (Dependency (Routine σ))}
    {ledger after : Ledger} {calls : List (Provision σ)} {result : Except Halt α}
    (accounts : Accounts (Dependency.Needs reference.target) ledger calls result after)
    (rest : List (Reference (Dependency (Routine σ)))) :
    Accounts (fun d => ∃ other ∈ reference :: rest, Dependency.Needs other.target d) ledger calls
      result after :=
  accounts.imp fun _ hneeds => ⟨reference, List.mem_cons_self, hneeds⟩

theorem Accounts.tail {α : Type} {rest : List (Reference (Dependency (Routine σ)))}
    {ledger after : Ledger} {calls : List (Provision σ)} {result : Except Halt α}
    (accounts : Accounts (fun d => ∃ other ∈ rest, Dependency.Needs other.target d) ledger calls
      result after) (reference : Reference (Dependency (Routine σ))) :
    Accounts (fun d => ∃ other ∈ reference :: rest, Dependency.Needs other.target d) ledger calls
      result after :=
  accounts.imp fun _ ⟨other, hmem, hneeds⟩ => ⟨other, List.mem_cons_of_mem _ hmem, hneeds⟩

/-- The calls of one part, which succeeded, and those of the next. -/
theorem Accounts.append {α β : Type} {needed : Dependency (Routine σ) → Prop}
    {ledger middle after : Ledger} {earlier later : List (Provision σ)} {value : α}
    {result : Except Halt β} (hearlier : Accounts needed ledger earlier (.ok value) middle)
    (hlater : Accounts needed middle later result after) :
    Accounts needed ledger (earlier ++ later) result after where
  needed call hcall := by
    rcases List.mem_append.mp hcall with hcall | hcall
    · exact hearlier.needed call hcall
    · exact hlater.needed call hcall
  entries := by
    rw [hlater.entries, hearlier.entries, List.filterMap_append, List.reverse_append,
      List.append_assoc]
  panics := by
    have hquiet : ¬ ∃ call ∈ earlier, call.Panicked := by
      rw [← hearlier.panics]
      simp
    rw [hlater.panics]
    constructor
    · rintro ⟨call, hcall, hpanicked⟩
      exact ⟨call, List.mem_append_right _ hcall, hpanicked⟩
    · rintro ⟨call, hcall, hpanicked⟩
      rcases List.mem_append.mp hcall with hcall | hcall
      · exact absurd ⟨call, hcall, hpanicked⟩ hquiet
      · exact ⟨call, hcall, hpanicked⟩

theorem Accounts.call {needed : Dependency (Routine σ) → Prop} {d : Dependency (Routine σ)}
    (hneeded : needed d) (isCached : Bool) (ledger : Ledger) (provision : Provision σ)
    (hdependency : provision.dependency = d) :
    Accounts needed ledger [provision] (concluded d isCached ledger provision.outcome).1
      (concluded d isCached ledger provision.outcome).2 where
  needed call hcall := by
    rw [List.mem_singleton.mp hcall, hdependency]
    exact hneeded
  entries := by
    have hscope : ∀ value, (recorded d isCached value ledger).scope =
        if d.provider.release.isSome then ledger.scope.push d.name ⟨d.id, value⟩
        else ledger.scope := by
      intro value
      unfold recorded
      cases isCached <;> split <;> rfl
    rcases hended : provision.outcome with ⟨e | value⟩ | text
    · simp [concluded, Provision.held?, hended]
    · simp only [concluded, hscope]
      split
      next hscoped => simp [Provision.held?, hended, hdependency, hscoped, Scope.push]
      next hscoped => simp [Provision.held?, hended, hdependency, hscoped]
    · simp [concluded, Provision.held?, hended]
  panics := by
    rcases hended : provision.outcome with ⟨e | value⟩ | text <;>
      simp [concluded, Provision.Panicked, hended]

mutual

theorem ResolvesOne.accounts {setting : Setting} {resolving : List DependencyId}
    {d : Dependency (Routine σ)} {isCached : Bool} {ledger after : Ledger}
    {calls : List (Provision σ)} {result : Except Halt Datum}
    (hresolves : ResolvesOne setting resolving d isCached ledger calls result after) :
    Accounts (Dependency.Needs d) ledger calls result after := by
  match hresolves with
  | .known _ => exact .none (by simp)
  | .cycle _ _ => exact .none (by simp)
  | .params _ _ hparams =>
      have hcalls := (ResolvesEach.accounts hparams).imp fun other ⟨_, hmem, hneeds⟩ =>
        Dependency.Needs.param hmem hneeds
      exact ⟨hcalls.needed, hcalls.entries, by simpa using hcalls.panics⟩
  | .called provision _ _ hparams hdependency _ =>
      have hcalls := (ResolvesEach.accounts hparams).imp fun other ⟨_, hmem, hneeds⟩ =>
        Dependency.Needs.param hmem hneeds
      exact hcalls.append (.call (.self d) isCached _ provision hdependency)

theorem ResolvesEach.accounts {setting : Setting} {resolving : List DependencyId}
    {references : List (Reference (Dependency (Routine σ)))} {ledger after : Ledger}
    {calls : List (Provision σ)} {result : Except Halt (List (String × Datum))}
    (hresolves : ResolvesEach setting resolving references ledger calls result after) :
    Accounts (fun d => ∃ reference ∈ references, Dependency.Needs reference.target d) ledger
      calls result after := by
  match hresolves with
  | .nil _ _ => exact .none (by simp)
  | .stop rest hone =>
      have hcalls := (ResolvesOne.accounts hone).head rest
      exact ⟨hcalls.needed, hcalls.entries, by simpa using hcalls.panics⟩
  | .next hone heach =>
      have hall := ((ResolvesOne.accounts hone).head _).append ((ResolvesEach.accounts heach).tail _)
      refine ⟨hall.needed, hall.entries, ?_⟩
      rw [← hall.panics]
      rename_i result
      cases result <;> simp [Except.map]

end

/-- What a scope holds is released by the teardowns of the calls themselves. -/
theorem teardowns_of_entries {taken : Nat} {ds : List (Dependency (Routine σ))}
    (sound : Dependency.Sound taken ds) {references : List (Reference (Dependency (Routine σ)))}
    (hreferences : ∀ reference ∈ references, reference.target ∈ ds)
    {calls : List (Provision σ)}
    (hneeded : ∀ call ∈ calls, ∃ reference ∈ references,
      Dependency.Needs reference.target call.dependency) :
    (calls.filterMap Provision.held?).map
        (fun entry => (entry.1, Dependency.teardownAmong references entry.2)) =
      calls.filterMap Provision.teardown? := by
  rw [List.map_filterMap]
  apply List.filterMap_congr
  intro call hcall
  obtain ⟨reference, hmem, hneeds⟩ := hneeded call hcall
  rcases hended : call.outcome with ⟨e | value⟩ | text
  · simp [Provision.held?, Provision.teardown?, hended]
  · cases hrelease : call.dependency.provider.release with
    | none => simp [Provision.held?, Provision.teardown?, hended, hrelease]
    | some release =>
        have hown := sound.teardownAmong_eq hreferences hmem hneeds hrelease value
        simp [Provision.held?, Provision.teardown?, hended, hrelease, hown]
  · simp [Provision.held?, Provision.teardown?, hended]

end Resolver
end WebApp
