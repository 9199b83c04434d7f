import Mathlib.Tactic
import WebApp.Proofs.Dependency.ResolverRuns
import WebApp.Proofs.Task.History

/-!
# The cache does not show

When the result of each provider depends on nothing but the request and its parameters, the
resolver comes to the same result as the recursion that has no cache and no stack: take the
override, or else resolve the parameters in order and call the provider.  For every cached
value is the one that the recursion would come to, since an identity stands for one provider
with one list of parameters.
-/

namespace WebApp
namespace Resolver

variable {σ : Type}

/-- The result of a resolution at the end of a provider's call. -/
def resultOf : Outcome (Except Error Datum) → Except Halt Datum
  | .finished (.ok value) => .ok value
  | .finished (.error e) => .error (.error e)
  | .panicked text => .error (.panic text)

theorem eq_of_resultOf_ok {outcome : Outcome (Except Error Datum)} {value : Datum}
    (hresult : resultOf outcome = .ok value) : outcome = .finished (.ok value) := by
  rcases outcome with ⟨e | other⟩ | text
  · exact absurd hresult (by simp [resultOf])
  · rw [Except.ok.inj hresult]
  · exact absurd hresult (by simp [resultOf])

section Recursion

variable (setting : Setting)
variable (answer : Dependency (Routine σ) → Call → Outcome (Except Error Datum))

mutual

def plainOne (d : Dependency (Routine σ)) : Except Halt Datum :=
  match d with
  | .node id name provider params =>
    match Assoc.get? id setting.overrides with
    | some value => .ok value
    | none => do
      let entries ← plainEach params
      resultOf (answer (.node id name provider params) ⟨setting.request, .ofList entries⟩)

/-- The plain recursion for references in order, up to the first that fails. -/
def plainEach (references : List (Reference (Dependency (Routine σ)))) :
    Except Halt (List (String × Datum)) :=
  match references with
  | [] => .ok []
  | ⟨name, target, _⟩ :: rest => do
    let value ← plainOne target
    let entries ← plainEach rest
    return (name, value) :: entries

end

/-- What the plain recursion gives for the references of a call. -/
def plain (references : List (Reference (Dependency (Routine σ)))) : Except Halt Resolved :=
  (plainEach setting answer references).map .ofList

end Recursion

/-- The result of each provider is a function of what it is called with. -/
def Answers (answer : Dependency (Routine σ) → Call → Outcome (Except Error Datum))
    (ds : List (Dependency (Routine σ))) : Prop :=
  ∀ d ∈ ds, ∀ call steps outcome, (d.provider.provide call).Runs steps outcome →
    outcome = answer d call

/-- Every cached value is the one that the plain recursion comes to. -/
def Faithful (setting : Setting)
    (answer : Dependency (Routine σ) → Call → Outcome (Except Error Datum))
    (ds : List (Dependency (Routine σ))) (ledger : Ledger) : Prop :=
  ∀ d ∈ ds, ∀ value, Assoc.get? d.id ledger.cache = some value →
    plainOne setting answer d = .ok value

section Soundness

variable {setting : Setting}
variable {answer : Dependency (Routine σ) → Call → Outcome (Except Error Datum)}
variable {taken : Nat} {ds : List (Dependency (Routine σ))}

theorem plainOne_of_override {d : Dependency (Routine σ)} {value : Datum}
    (hoverride : Assoc.get? d.id setting.overrides = some value) :
    plainOne setting answer d = .ok value := by
  cases d with
  | node id name provider params =>
      change Assoc.get? id setting.overrides = some value at hoverride
      rw [plainOne, hoverride]

theorem plainOne_of_no_override {d : Dependency (Routine σ)}
    (hnone : Assoc.get? d.id setting.overrides = none) :
    plainOne setting answer d = (do
      let entries ← plainEach setting answer d.params
      resultOf (answer d ⟨setting.request, .ofList entries⟩)) := by
  cases d with
  | node id name provider params =>
      change Assoc.get? id setting.overrides = none at hnone
      rw [plainOne, hnone]
      rfl

theorem plainEach_cons (reference : Reference (Dependency (Routine σ)))
    (rest : List (Reference (Dependency (Routine σ)))) :
    plainEach setting answer (reference :: rest) = (do
      let value ← plainOne setting answer reference.target
      let entries ← plainEach setting answer rest
      return (reference.name, value) :: entries) := by
  rw [plainEach]

theorem override_eq_none {id : DependencyId} {isCached : Bool} {ledger : Ledger}
    (hknown : known? setting id isCached ledger = none) :
    Assoc.get? id setting.overrides = none := by
  unfold known? at hknown
  split at hknown
  · simp at hknown
  · assumption

/-- A value that is known without a call is the one that the plain recursion comes to. -/
theorem plainOne_of_known {d : Dependency (Routine σ)} {isCached : Bool} {ledger : Ledger}
    {value : Datum} (hd : d ∈ ds) (hfaithful : Faithful setting answer ds ledger)
    (hknown : known? setting d.id isCached ledger = some value) :
    plainOne setting answer d = .ok value := by
  unfold known? at hknown
  split at hknown
  next found hoverride =>
    simp only [Option.some.injEq] at hknown
    rw [← hknown]
    exact plainOne_of_override hoverride
  next =>
    split at hknown
    · exact hfaithful d hd value hknown
    · simp at hknown

theorem concluded_fst (d : Dependency (Routine σ)) (isCached : Bool) (ledger : Ledger)
    (outcome : Outcome (Except Error Datum)) :
    (concluded d isCached ledger outcome).1 = resultOf outcome := by
  rcases outcome with ⟨_ | _⟩ | _ <;> rfl

theorem cache_recorded (d : Dependency (Routine σ)) (isCached : Bool) (value : Datum)
    (ledger : Ledger) :
    (recorded d isCached value ledger).cache =
      if isCached then Assoc.insert d.id value ledger.cache else ledger.cache := by
  unfold recorded
  cases isCached <;> split <;> rfl

/-- The end of a call keeps the cache faithful when the plain recursion ends alike. -/
theorem Faithful.concluded (sound : Dependency.Sound taken ds) {d : Dependency (Routine σ)}
    (hd : d ∈ ds) {ledger : Ledger} (hfaithful : Faithful setting answer ds ledger)
    (isCached : Bool) {outcome : Outcome (Except Error Datum)}
    (hplain : plainOne setting answer d = resultOf outcome) :
    Faithful setting answer ds (concluded d isCached ledger outcome).2 := by
  rcases outcome with ⟨e | value⟩ | text
  · exact hfaithful
  · intro other hother found hfound
    simp only [Resolver.concluded, cache_recorded] at hfound
    split at hfound
    · by_cases hsame : other.id = d.id
      · rw [hsame, Assoc.get?_insert_self, Option.some.injEq] at hfound
        rw [sound.unique other hother d hd hsame, hplain, ← hfound]
        rfl
      · rw [Assoc.get?_insert_of_ne hsame] at hfound
        exact hfaithful other hother found hfound
    · exact hfaithful other hother found hfound
  · exact hfaithful

/-- What is being resolved stands above the parameters, so that none of them is among it. -/
theorem above_params (sound : Dependency.Sound taken ds) {d : Dependency (Routine σ)}
    (hd : d ∈ ds) {resolving : List DependencyId}
    (habove : ∀ id ∈ resolving, d.id.number < id.number) :
    ∀ reference ∈ d.params, ∀ id ∈ d.id :: resolving, reference.target.id.number < id.number := by
  intro reference hreference id hid
  have hbelow := sound.descending d hd reference hreference
  rcases List.mem_cons.mp hid with rfl | hid
  · exact hbelow
  · exact hbelow.trans (habove id hid)

mutual

theorem resolvesOne_plain (sound : Dependency.Sound taken ds) (hanswer : Answers answer ds)
    {resolving : List DependencyId} {d : Dependency (Routine σ)} {isCached : Bool}
    {ledger after : Ledger} {calls : List (Provision σ)} {result : Except Halt Datum}
    (hresolves : ResolvesOne setting resolving d isCached ledger calls result after)
    (hd : d ∈ ds) (habove : ∀ id ∈ resolving, d.id.number < id.number)
    (hfaithful : Faithful setting answer ds ledger) :
    result = plainOne setting answer d ∧ Faithful setting answer ds after := by
  match hresolves with
  | .known hknown => exact ⟨(plainOne_of_known hd hfaithful hknown).symm, hfaithful⟩
  | .cycle _ hmem => exact absurd (habove d.id hmem) (lt_irrefl _)
  | .params hknown _ hparams =>
      obtain ⟨hplain, hafter⟩ := resolvesEach_plain sound hanswer hparams (sound.closed d hd)
        (above_params sound hd habove) hfaithful
      refine ⟨?_, hafter⟩
      rw [plainOne_of_no_override (override_eq_none hknown), ← hplain]
      rfl
  | .called provision hknown _ hparams hdependency hcall =>
      obtain ⟨hplain, hmiddle⟩ := resolvesEach_plain sound hanswer hparams (sound.closed d hd)
        (above_params sound hd habove) hfaithful
      have houtcome : provision.outcome = answer d provision.call :=
        hanswer d hd _ _ _ (hdependency ▸ provision.runs)
      have hone : plainOne setting answer d = resultOf provision.outcome := by
        rw [plainOne_of_no_override (override_eq_none hknown), ← hplain, houtcome, hcall]
        rfl
      exact ⟨by rw [concluded_fst, hone], hmiddle.concluded sound hd _ hone⟩

theorem resolvesEach_plain (sound : Dependency.Sound taken ds) (hanswer : Answers answer ds)
    {resolving : List DependencyId} {references : List (Reference (Dependency (Routine σ)))}
    {ledger after : Ledger} {calls : List (Provision σ)}
    {result : Except Halt (List (String × Datum))}
    (hresolves : ResolvesEach setting resolving references ledger calls result after)
    (hmem : ∀ reference ∈ references, reference.target ∈ ds)
    (habove : ∀ reference ∈ references, ∀ id ∈ resolving,
      reference.target.id.number < id.number)
    (hfaithful : Faithful setting answer ds ledger) :
    result = plainEach setting answer references ∧ Faithful setting answer ds after := by
  match hresolves with
  | .nil _ _ => exact ⟨by simp [plainEach], hfaithful⟩
  | .stop _ hone =>
      obtain ⟨hplain, hafter⟩ := resolvesOne_plain sound hanswer hone (hmem _ (by simp))
        (habove _ (by simp)) hfaithful
      exact ⟨by rw [plainEach_cons, ← hplain]; rfl, hafter⟩
  | .next hone heach =>
      obtain ⟨hplain, hmiddle⟩ := resolvesOne_plain sound hanswer hone (hmem _ (by simp))
        (habove _ (by simp)) hfaithful
      obtain ⟨hrest, hafter⟩ := resolvesEach_plain sound hanswer heach
        (fun reference hreference => hmem reference (by simp [hreference]))
        (fun reference hreference => habove reference (by simp [hreference])) hmiddle
      refine ⟨?_, hafter⟩
      rw [plainEach_cons, ← hplain, ← hrest]
      rename_i result
      cases result <;> rfl

end

end Soundness

/-- The ledgers that resolutions of one request leave behind, one after another. -/
inductive Used (setting : Setting) (ds : List (Dependency (Routine σ))) : Ledger → Prop where
  | start : Used setting ds {}
  | resolve {ledger after : Ledger} {references : List (Reference (Dependency (Routine σ)))}
      {steps : List (Step σ)} {result : Except Halt Resolved} :
      Used setting ds ledger → (∀ reference ∈ references, reference.target ∈ ds) →
      ((resolve setting references).run.run ledger).Runs steps (.finished (result, after)) →
      Used setting ds after

theorem resolve_faithful {setting : Setting}
    {answer : Dependency (Routine σ) → Call → Outcome (Except Error Datum)} {taken : Nat}
    {ds : List (Dependency (Routine σ))} (sound : Dependency.Sound taken ds)
    (hanswer : Answers answer ds) {references : List (Reference (Dependency (Routine σ)))}
    (hmem : ∀ reference ∈ references, reference.target ∈ ds) {ledger : Ledger}
    (hfaithful : Faithful setting answer ds ledger) {steps : List (Step σ)}
    {outcome : Outcome (Except Halt Resolved × Ledger)}
    (hruns : ((resolve setting references).run.run ledger).Runs steps outcome) :
    ∃ after, outcome = .finished (plain setting answer references, after) ∧
      Faithful setting answer ds after := by
  obtain ⟨calls, _, after, rfl, -, result, hresolves, rfl⟩ :=
    resolve_comesTo setting references ledger steps outcome hruns
  obtain ⟨hplain, hafter⟩ := resolvesEach_plain sound hanswer hresolves hmem
    (fun _ _ id hid => absurd hid (by simp)) hfaithful
  exact ⟨after, by rw [plain, hplain], hafter⟩

theorem Used.faithful {setting : Setting}
    {answer : Dependency (Routine σ) → Call → Outcome (Except Error Datum)} {taken : Nat}
    {ds : List (Dependency (Routine σ))} (sound : Dependency.Sound taken ds)
    (hanswer : Answers answer ds) {ledger : Ledger} (used : Used setting ds ledger) :
    Faithful setting answer ds ledger := by
  induction used with
  | start =>
      intro d _ value hcached
      simp [Assoc.get?] at hcached
  | resolve _ hmem hruns ih =>
      obtain ⟨after, hfinished, hafter⟩ := resolve_faithful sound hanswer hmem ih hruns
      simp only [Outcome.finished.injEq, Prod.mk.injEq] at hfinished
      rwa [hfinished.2]

/-- However the references of a request share dependencies, the resolver gives what the plain
recursion gives. -/
theorem resolve_eq_plain {taken : Nat} {ds : List (Dependency (Routine σ))}
    (built : Dependency.Built taken ds)
    (answer : Dependency (Routine σ) → Call → Outcome (Except Error Datum))
    (hanswer : Answers answer ds) (setting : Setting) {ledger : Ledger}
    (used : Used setting ds ledger) (references : List (Reference (Dependency (Routine σ))))
    (hmem : ∀ reference ∈ references, reference.target ∈ ds) :
    (∀ steps outcome, ((resolve setting references).run.run ledger).Runs steps outcome →
      ∃ after, outcome = .finished (plain setting answer references, after)) ∧
    (∀ (w w' : World σ) outcome,
      w.run ((resolve setting references).run.run ledger) = (.ended outcome, w') →
      ∃ after, outcome = .finished (plain setting answer references, after)) ∧
    (Nonempty (Journal σ) → ∃ steps after,
      ((resolve setting references).run.run ledger).Runs steps
        (.finished (plain setting answer references, after))) := by
  have hall : ∀ steps outcome,
      ((resolve setting references).run.run ledger).Runs steps outcome →
      ∃ after, outcome = .finished (plain setting answer references, after) := by
    intro steps outcome hruns
    obtain ⟨after, houtcome, -⟩ := resolve_faithful built.sound hanswer hmem
      (used.faithful built.sound hanswer) hruns
    exact ⟨after, houtcome⟩
  refine ⟨hall, ?_, ?_⟩
  · intro w w' outcome hrun
    obtain ⟨steps, hruns⟩ := World.exists_runs_of_run hrun
    exact hall steps outcome hruns
  · rintro ⟨journal⟩
    obtain ⟨steps, outcome, hruns⟩ :=
      Routine.exists_runs journal ((resolve setting references).run.run ledger)
    obtain ⟨after, rfl⟩ := hall steps outcome hruns
    exact ⟨steps, after, hruns⟩

/-- A provider that tells how many parameters it is called with. -/
def countProvider : Provider (Routine Unit) :=
  { provide := fun call => pure (.ok (.int64 call.resolved.size)) }

def leaf : Dependency (Routine Unit) := .node ⟨0⟩ "leaf" countProvider []

def bareBranch : Dependency (Routine Unit) := .node ⟨1⟩ "branch" countProvider []

def branch : Dependency (Routine Unit) := bareBranch.param ⟨2⟩ ⟨"leaf", leaf, true⟩

theorem built_branch : Dependency.Built 3 [branch, bareBranch, leaf] :=
  .param (.make "branch" countProvider (.make "leaf" countProvider .none le_rfl) le_rfl)
    (by simp [bareBranch]) (by simp [leaf]) le_rfl

theorem answers_count : Answers (fun _ call => .finished (.ok (.int64 call.resolved.size)))
    [branch, bareBranch, leaf] := by
  intro d hd call steps outcome hruns
  have hprovider : d.provider = countProvider := by
    simp only [List.mem_cons, List.not_mem_nil, or_false] at hd
    rcases hd with rfl | rfl | rfl <;> rfl
  rw [hprovider] at hruns
  exact hruns.2

def branchAndLeaf : List (Reference (Dependency (Routine Unit))) :=
  [⟨"first", branch, true⟩, ⟨"second", leaf, false⟩, ⟨"third", branch, true⟩]

/-- A leaf and a branch are asked for, cached and not. -/
theorem resolve_branchAndLeaf :
    Dependency.Built 3 [branch, bareBranch, leaf] ∧
    Answers (fun _ call => .finished (.ok (.int64 call.resolved.size)))
      [branch, bareBranch, leaf] ∧
    Used ⟨{ method := .get, path := "/" }, []⟩ [branch, bareBranch, leaf] {} ∧
    (∀ reference ∈ branchAndLeaf, reference.target ∈ [branch, bareBranch, leaf]) ∧
    ∀ steps outcome, ((resolve ⟨{ method := .get, path := "/" }, []⟩
      branchAndLeaf).run.run {}).Runs steps outcome →
      ∃ after, outcome = .finished
        (.ok ⟨[("first", .int64 1), ("second", .int64 0), ("third", .int64 1)]⟩, after) := by
  have hmem : ∀ reference ∈ branchAndLeaf, reference.target ∈ [branch, bareBranch, leaf] := by
    simp [branchAndLeaf]
  exact ⟨built_branch, answers_count, .start, hmem,
    (resolve_eq_plain built_branch _ answers_count _ .start _ hmem).1⟩

end Resolver
end WebApp
