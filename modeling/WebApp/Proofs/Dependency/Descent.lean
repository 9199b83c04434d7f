import Mathlib.Tactic
import WebApp.Proofs.Dependency.CallOrder

/-!
# The stack of a resolver

A resolver keeps the dependencies whose parameters it is resolving on a stack, and looks there
before it begins with another one.  `resolve` hands the stack down; here it is what a resolver
changes as it goes, pushed before the parameters of a dependency and popped behind them, and the
depth of the recursion is counted.  Identities get smaller on the way down.  So no look finds
anything, the stack is left as it was, and the depth is never used up.
-/

namespace WebApp
namespace Resolver

universe u

/-! ## A resolver that keeps a stack -/

/-- A look for a dependency among those on the stack. -/
structure Look where
  id : DependencyId
  stack : List DependencyId
deriving DecidableEq, Repr

/-- What a resolver changes: what it has resolved, the dependencies whose parameters it is
resolving, the innermost first, and the looks that it has taken, the last one first. -/
structure Descent where
  ledger : Ledger := {}
  stack : List DependencyId := []
  looks : List Look := []

namespace Descent

def push (s : Descent) (id : DependencyId) : Descent :=
  { s with stack := id :: s.stack }

def pop (s : Descent) : Descent :=
  { s with stack := s.stack.tail }

def look (s : Descent) (id : DependencyId) : Descent :=
  { s with looks := ⟨id, s.stack⟩ :: s.looks }

end Descent

/-- Programs of a resolver that keeps a stack. -/
abbrev Descending (m : Type → Type u) : Type → Type u :=
  ExceptT Halt (StateT Descent m)

def panics {α : Type} : Except Halt α → Bool
  | .error (.panic _) => true
  | _ => false

@[simp] theorem panics_map {α β : Type} (f : α → β) (result : Except Halt α) :
    panics (result.map f) = panics result := by
  rcases result with ⟨e | text⟩ | value <;> rfl

section Programs

variable {m : Type → Type u} [Monad m]

/-- Whether a dependency is on the stack. -/
def isResolving (id : DependencyId) : Descending m Bool :=
  modifyGet fun s => (s.stack.contains id, s.look id)

/-- Runs a program with one more dependency on the stack.  An error does not keep it there; a
panic does. -/
def within {α : Type} (id : DependencyId) (program : Descending m α) : Descending m α :=
  ExceptT.mk do
    modify fun s => s.push id
    let result ← program.run
    unless panics result do
      modify Descent.pop
    return result

def onLedger {α : Type} (program : Resolution m α) : Descending m α :=
  ExceptT.mk do
    let s ← get
    let (result, ledger) ← (program.run.run s.ledger : m _)
    set { s with ledger := ledger }
    return result

def descendEach (one : Dependency m → Bool → Descending m Datum) :
    List (Reference (Dependency m)) → Descending m (List (String × Datum))
  | [] => return []
  | ⟨name, target, isCached⟩ :: rest => do
    let value ← one target isCached
    let entries ← descendEach one rest
    return (name, value) :: entries

/-- Gives the error of a dependency that needs itself. -/
def failCycle (d : Dependency m) : Descending m Datum :=
  throw (.error (DependencyError.cycle d.name).toError)

variable [Tasks m] (setting : Setting)
variable (found : Dependency m → Descending m Datum) (beyond : Descending m Datum)

/-- Resolves one reference, with so many levels left.  `found` is what to do about a dependency
that is on the stack, `failCycle` for one, and `beyond` what to do without a level. -/
def descendOne : Nat → Dependency m → Bool → Descending m Datum
  | 0, _, _ => beyond
  | levels + 1, d, isCached => do
    match known? setting d.id isCached (← get).ledger with
    | some value => return value
    | none =>
      if ← isResolving d.id then
        found d
      else
        let entries ← within d.id (descendEach (descendOne levels) d.params)
        let value ← onLedger (callProvider d.provider ⟨setting.request, .ofList entries⟩)
        onLedger (record d isCached value)
        return value

def descend (levels : Nat) (references : List (Reference (Dependency m))) :
    Descending m Resolved := do
  return .ofList (← descendEach (descendOne setting found beyond levels) references)

end Programs

/-! ## Equations -/

section Equations

variable {m : Type → Type u} [Monad m]

theorem run_descendEach_cons (one : Dependency m → Bool → Descending m Datum)
    (reference : Reference (Dependency m)) (rest : List (Reference (Dependency m)))
    (s : Descent) :
    (descendEach one (reference :: rest)).run.run s = (do
      match ← (one reference.target reference.isCached).run.run s with
      | (.ok value, s) => do
        match ← (descendEach one rest).run.run s with
        | (.ok entries, s) => pure (.ok ((reference.name, value) :: entries), s)
        | (.error halt, s) => pure (.error halt, s)
      | (.error halt, s) => pure (.error halt, s)) := by
  obtain ⟨name, target, isCached⟩ := reference
  simp only [descendEach, run_bind]
  congr 1
  funext ended
  obtain ⟨result, s⟩ := ended
  cases result with
  | error halt => rfl
  | ok value =>
      dsimp only
      congr 1
      funext ended
      obtain ⟨result, s⟩ := ended
      cases result <;> rfl

theorem run_descend [Tasks m] (setting : Setting) (found : Dependency m → Descending m Datum)
    (beyond : Descending m Datum) (levels : Nat) (references : List (Reference (Dependency m)))
    (s : Descent) :
    (descend setting found beyond levels references).run.run s = (do
      let (result, after) ←
        (descendEach (descendOne setting found beyond levels) references).run.run s
      pure (result.map .ofList, after)) := by
  rw [descend, run_bind]
  congr 1
  funext ended
  obtain ⟨result, after⟩ := ended
  cases result <;> rfl

variable [LawfulMonad m]

theorem run_isResolving (id : DependencyId) (s : Descent) :
    (isResolving id : Descending m Bool).run.run s =
      pure (.ok (s.stack.contains id), s.look id) := by
  change (Except.ok <$> (modifyGet _ : StateT Descent m Bool)).run s = _
  simp

theorem run_within {α : Type} (id : DependencyId) (program : Descending m α) (s : Descent) :
    (within id program).run.run s = (do
      let (result, after) ← program.run.run (s.push id)
      pure (result, if panics result then after else after.pop)) := by
  simp only [within, ExceptT.run_mk, StateT.run_bind, StateT.run_modify, pure_bind]
  congr 1
  funext ended
  obtain ⟨result, after⟩ := ended
  cases panics result <;> simp

theorem run_onLedger {α : Type} (program : Resolution m α) (s : Descent) :
    (onLedger program).run.run s = (do
      let (result, ledger) ← program.run.run s.ledger
      pure (result, { s with ledger := ledger })) := by
  simp [onLedger]

theorem run_descendOne [Tasks m] (setting : Setting)
    (found : Dependency m → Descending m Datum) (beyond : Descending m Datum) (levels : Nat)
    (d : Dependency m) (isCached : Bool) (s : Descent) :
    (descendOne setting found beyond (levels + 1) d isCached).run.run s =
      match known? setting d.id isCached s.ledger with
      | some value => pure (.ok value, s)
      | none =>
        if s.stack.contains d.id then (found d).run.run (s.look d.id)
        else (do
          match ← (within d.id (descendEach (descendOne setting found beyond levels)
              d.params)).run.run (s.look d.id) with
          | (.ok entries, s) =>
            let provided ← Tasks.attempt (d.provider.provide ⟨setting.request, .ofList entries⟩)
            let (result, ledger) := concluded d isCached s.ledger provided
            pure (result, { s with ledger := ledger })
          | (.error halt, s) => pure (.error halt, s)) := by
  rw [descendOne, run_bind, run_get, pure_bind]
  dsimp only
  cases known? setting d.id isCached s.ledger with
  | some value => rfl
  | none =>
      dsimp only
      rw [run_bind, run_isResolving, pure_bind]
      dsimp only
      by_cases hcycle : s.stack.contains d.id = true
      · rw [if_pos hcycle, if_pos hcycle]
      · rw [if_neg hcycle, if_neg hcycle, run_bind]
        congr 1
        funext ended
        obtain ⟨result, s⟩ := ended
        cases result with
        | error halt => rfl
        | ok entries =>
            simp only [run_bind, run_onLedger, run_callProvider, bind_assoc]
            congr 1
            funext provided
            rcases provided with ⟨⟨e⟩ | ⟨value⟩⟩ | ⟨text⟩
            · simp [concluded]
            · simp only [pure_bind, concluded, run_record]
              rfl
            · simp [concluded]

end Equations

/-! ## The two resolvers side by side -/

section Sides

variable {m : Type → Type u} [Monad m]

/-- How a program has ended, but for the stack and the looks. -/
def forget {α : Type} (ended : Except Halt α × Descent) : Except Halt α × Ledger :=
  (ended.1, ended.2.ledger)

/-- A program always ends as told, and another is what remains of it without the stack and the
looks. -/
def Forgets {α : Type} (ends : Except Halt α × Descent → Prop)
    (p : m (Except Halt α × Descent)) (q : m (Except Halt α × Ledger)) : Prop :=
  ∃ both : m {ended // ends ended},
    Subtype.val <$> both = p ∧ (fun ended => forget ended.1) <$> both = q

variable [LawfulMonad m] {α β γ : Type}
variable {ends : Except Halt α × Descent → Prop} {last : Except Halt β × Descent → Prop}

theorem forgets_pure (ended : Except Halt α × Descent) (hends : ends ended) :
    Forgets ends (pure ended : m _) (pure (forget ended)) :=
  ⟨pure ⟨ended, hends⟩, by simp, by simp⟩

theorem Forgets.bind {p : m (Except Halt α × Descent)} {q : m (Except Halt α × Ledger)}
    {f : Except Halt α × Descent → m (Except Halt β × Descent)}
    {g : Except Halt α × Ledger → m (Except Halt β × Ledger)} (hfirst : Forgets ends p q)
    (hnext : ∀ ended, ends ended → Forgets last (f ended) (g (forget ended))) :
    Forgets last (p >>= f) (q >>= g) := by
  obtain ⟨both, rfl, rfl⟩ := hfirst
  choose next hp hq using fun ended : {ended // ends ended} => hnext ended.1 ended.2
  refine ⟨both >>= next, ?_, ?_⟩
  · simp only [map_bind, bind_map_left, hp]
  · simp only [map_bind, bind_map_left, hq]

theorem forgets_same {r : m γ} {f : γ → m (Except Halt α × Descent)}
    {g : γ → m (Except Halt α × Ledger)} (hnext : ∀ given, Forgets ends (f given) (g given)) :
    Forgets ends (r >>= f) (r >>= g) := by
  choose next hp hq using hnext
  refine ⟨r >>= next, ?_, ?_⟩
  · simp only [map_bind, hp]
  · simp only [map_bind, hq]

theorem Forgets.forget_map {p : m (Except Halt α × Descent)} {q : m (Except Halt α × Ledger)}
    (hforgets : Forgets ends p q) : forget <$> p = q := by
  obtain ⟨both, rfl, rfl⟩ := hforgets
  simp

end Sides

/-! ## On the way down -/

/-- None of the looks has found anything. -/
def Descent.Clear (s : Descent) : Prop :=
  ∀ look ∈ s.looks, look.id ∉ look.stack

theorem Descent.Clear.look {s : Descent} (hclear : s.Clear) {id : DependencyId}
    (hid : id ∉ s.stack) : (s.look id).Clear := by
  intro look hlook
  rcases List.mem_cons.mp hlook with rfl | hlook
  · exact hid
  · exact hclear look hlook

/-- A program that began with this stack has found nothing on it, and has left it so unless it
panicked. -/
structure Leaves {α : Type} (stack : List DependencyId) (ended : Except Halt α × Descent) :
    Prop where
  clear : ended.2.Clear
  stack_eq : panics ended.1 = false → ended.2.stack = stack

theorem Leaves.map {α β : Type} {stack : List DependencyId} {result : Except Halt α}
    {after : Descent} (hleaves : Leaves stack (result, after)) (f : α → β) :
    Leaves stack (result.map f, after) :=
  ⟨hleaves.clear, fun hpanics => hleaves.stack_eq (by simpa using hpanics)⟩

theorem Leaves.error {α β : Type} {stack : List DependencyId} {halt : Halt} {after : Descent}
    (hleaves : Leaves (α := α) stack (.error halt, after)) :
    Leaves (α := β) stack (.error halt, after) :=
  ⟨hleaves.clear, fun hpanics => hleaves.stack_eq (by cases halt <;> exact hpanics)⟩

section Parts

variable {m : Type → Type u} [Monad m] [LawfulMonad m]

theorem Forgets.within {α : Type} {program : Descending m α} {q : m (Except Halt α × Ledger)}
    {id : DependencyId} {s : Descent}
    (hprogram : Forgets (Leaves (id :: s.stack)) (program.run.run (s.push id)) q) :
    Forgets (Leaves s.stack) ((within id program).run.run s) q := by
  rw [run_within, ← bind_pure q]
  refine hprogram.bind ?_
  rintro ⟨result, after⟩ hleaves
  dsimp only
  cases hpanics : panics result with
  | true => exact forgets_pure (result, after) ⟨hleaves.clear, by simp [hpanics]⟩
  | false =>
      refine forgets_pure (result, after.pop) ⟨hleaves.clear, fun _ => ?_⟩
      rw [Descent.pop, hleaves.stack_eq hpanics]
      rfl

variable [Tasks m] {setting : Setting}

/-- References in order, when each of them is resolved alike on both sides. -/
theorem descendEach_forgets {one : Dependency m → Bool → Descending m Datum}
    {references : List (Reference (Dependency m))} {s : Descent} (hclear : s.Clear)
    (hone : ∀ reference ∈ references, ∀ begun : Descent, begun.stack = s.stack → begun.Clear →
      Forgets (Leaves begun.stack) ((one reference.target reference.isCached).run.run begun)
        ((resolveOne setting begun.stack reference.target reference.isCached).run.run
          begun.ledger)) :
    Forgets (Leaves s.stack) ((descendEach one references).run.run s)
      ((resolveEach setting s.stack references).run.run s.ledger) := by
  induction references generalizing s with
  | nil => exact forgets_pure (.ok [], s) ⟨hclear, fun _ => rfl⟩
  | cons reference rest ih =>
      rw [run_descendEach_cons, run_resolveEach_cons]
      refine (hone reference List.mem_cons_self s rfl hclear).bind ?_
      rintro ⟨result, middle⟩ hmiddle
      cases result with
      | error halt => exact forgets_pure _ hmiddle.error
      | ok value =>
          have hstack : middle.stack = s.stack := hmiddle.stack_eq rfl
          have hrest := ih hmiddle.clear fun other hother begun hbegun =>
            hone other (List.mem_cons_of_mem _ hother) begun (hbegun.trans hstack)
          rw [hstack] at hrest
          refine hrest.bind ?_
          rintro ⟨result, after⟩ hafter
          cases result with
          | error halt => exact forgets_pure _ hafter
          | ok entries =>
              exact forgets_pure (.ok ((reference.name, value) :: entries), after)
                ⟨hafter.clear, fun _ => hafter.stack_eq rfl⟩

end Parts

section Whole

variable {σ : Type} (setting : Setting)
variable (found : Dependency (Routine σ) → Descending (Routine σ) Datum)
variable (beyond : Descending (Routine σ) Datum)
variable {taken : Nat} {ds : List (Dependency (Routine σ))}

/-- With a level for each identity up to that of the dependency, and only greater ones on the
stack, the resolver that keeps a stack does what `resolveOne` does. -/
theorem descendOne_forgets (sound : Dependency.Sound taken ds) {levels : Nat}
    {d : Dependency (Routine σ)} (hd : d ∈ ds) (hlevels : d.id.number < levels) (isCached : Bool)
    {s : Descent} (hclear : s.Clear) (habove : ∀ id ∈ s.stack, d.id.number < id.number) :
    Forgets (Leaves s.stack) ((descendOne setting found beyond levels d isCached).run.run s)
      ((resolveOne setting s.stack d isCached).run.run s.ledger) := by
  -- A parameter has one level less, and an identity that is smaller by one at least.
  induction levels generalizing d isCached s with
  | zero => exact absurd hlevels (Nat.not_lt_zero _)
  | succ levels ih =>
      rw [run_descendOne, run_resolveOne_eq]
      cases known? setting d.id isCached s.ledger with
      | some value => exact forgets_pure (.ok value, s) ⟨hclear, fun _ => rfl⟩
      | none =>
          have hid : d.id ∉ s.stack := fun hmem => lt_irrefl _ (habove d.id hmem)
          dsimp only
          rw [if_neg (by simpa using hid), if_neg (by simpa using hid)]
          -- The parameters have smaller identities than all that is on the stack by then.
          have hparams : Forgets (Leaves (d.id :: s.stack))
              ((descendEach (descendOne setting found beyond levels) d.params).run.run
                ((s.look d.id).push d.id))
              ((resolveEach setting (d.id :: s.stack) d.params).run.run s.ledger) := by
            refine descendEach_forgets (s := (s.look d.id).push d.id) (hclear.look hid) ?_
            intro reference hreference begun hbegun hnone
            have hbelow := sound.descending d hd reference hreference
            refine ih (sound.closed d hd reference hreference) (by omega) reference.isCached
              hnone ?_
            rw [hbegun]
            exact above_params sound hd habove reference hreference
          refine Forgets.bind (Forgets.within (s := s.look d.id) hparams) ?_
          rintro ⟨result, after⟩ hleaves
          cases result with
          | error halt => exact forgets_pure _ hleaves.error
          | ok entries =>
              exact forgets_same fun provided => forgets_pure
                ((concluded d isCached after.ledger provided).1,
                  { after with ledger := (concluded d isCached after.ledger provided).2 })
                ⟨hleaves.clear, fun _ => hleaves.stack_eq rfl⟩

/-- From an empty stack, and with a level for each identity that was given out, the resolver that
keeps a stack does what `resolve` does. -/
theorem descend_forgets (sound : Dependency.Sound taken ds) {levels : Nat}
    (hlevels : taken ≤ levels) {references : List (Reference (Dependency (Routine σ)))}
    (hmem : ∀ reference ∈ references, reference.target ∈ ds) {s : Descent} (hstack : s.stack = [])
    (hclear : s.Clear) :
    Forgets (Leaves []) ((descend setting found beyond levels references).run.run s)
      ((resolve setting references).run.run s.ledger) := by
  have heach : Forgets (Leaves [])
      ((descendEach (descendOne setting found beyond levels) references).run.run s)
      ((resolveEach setting [] references).run.run s.ledger) := by
    rw [← hstack]
    refine descendEach_forgets hclear fun reference hreference begun hbegun hnone => ?_
    have hlt := sound.bounded _ (hmem reference hreference)
    exact descendOne_forgets setting found beyond sound (hmem reference hreference) (by omega) _ hnone
      (by simp [hbegun, hstack])
  rw [run_descend, run_resolve]
  refine heach.bind ?_
  rintro ⟨result, after⟩ hleaves
  exact forgets_pure _ (hleaves.map Resolved.ofList)

end Whole

/-! ## Every resolution -/

variable {σ : Type}

theorem Forgets.ends_of_runs {α : Type} {ends : Except Halt α × Descent → Prop}
    {p : Routine σ (Except Halt α × Descent)} {q : Routine σ (Except Halt α × Ledger)}
    (hforgets : Forgets ends p q) {steps : List (Step σ)} {ended : Except Halt α × Descent}
    (hruns : p.Runs steps (.finished ended)) : ends ended := by
  obtain ⟨both, rfl, -⟩ := hforgets
  obtain ⟨given, -, rfl⟩ := Routine.exists_runs_of_map hruns
  exact given.2

/-- Dependencies are made one after another, and none comes round to itself.  Those of one
identity have one provider and one list of parameters, and whatever is reached through the
parameters of a dependency has a smaller identity.  So, whatever is overridden and cached, a
resolver with an empty stack finds none of the dependencies that it looks for on its stack, comes
to an end, and leaves the stack empty unless a provider panics.  It does what `resolve` does, and
it does so whatever stands in place of the error about a dependency that is found on the stack,
and whatever would be done below as many levels as identities were given out. -/
theorem resolve_descends {taken : Nat} {ds : List (Dependency (Routine σ))}
    (built : Dependency.Built taken ds) :
    (∀ d ∈ ds, ∀ other ∈ ds, d.id = other.id →
      d.provider = other.provider ∧ d.params = other.params) ∧
    (∀ d ∈ ds, ∀ reference, Refers d.params reference →
      reference.target ∈ ds ∧ reference.target.id.number < d.id.number) ∧
    ∀ (setting : Setting) (references : List (Reference (Dependency (Routine σ))))
      (found : Dependency (Routine σ) → Descending (Routine σ) Datum)
      (beyond : Descending (Routine σ) Datum) (levels : Nat) (s : Descent),
      (∀ reference ∈ references, reference.target ∈ ds) → taken ≤ levels →
      s.stack = [] → s.Clear →
      forget <$> (descend setting found beyond levels references).run.run s =
        (resolve setting references).run.run s.ledger ∧
      (∀ steps outcome,
        ((descend setting found beyond levels references).run.run s).Runs steps outcome →
        ∃ result after, outcome = .finished (result, after) ∧ after.Clear ∧
          (panics result = false → after.stack = [])) ∧
      (Nonempty (Journal σ) → ∃ steps result after,
        ((descend setting found beyond levels references).run.run s).Runs steps
          (.finished (result, after))) := by
  have sound := built.sound
  refine ⟨?_, ?_, ?_⟩
  · intro d hd other hother hid
    rw [sound.unique d hd other hother hid]
    exact ⟨rfl, rfl⟩
  · intro d hd reference hrefers
    exact ⟨hrefers.mem sound (sound.closed d hd), hrefers.target_lt sound hd⟩
  · intro setting references found beyond levels s hmem hlevels hstack hclear
    have hforgets := descend_forgets setting found beyond sound hlevels hmem hstack hclear
    have hends : ∀ steps outcome,
        ((descend setting found beyond levels references).run.run s).Runs steps outcome →
        ∃ ended, outcome = .finished ended := by
      intro steps outcome hruns
      cases outcome with
      | finished ended => exact ⟨ended, rfl⟩
      | panicked text =>
          have hpanic := Routine.runs_map_of_panicked forget hruns
          rw [hforgets.forget_map] at hpanic
          obtain ⟨_, _, _, hnever, -⟩ := resolve_comesTo setting references s.ledger _ _ hpanic
          exact absurd hnever (by simp)
    refine ⟨hforgets.forget_map, ?_, ?_⟩
    · intro steps outcome hruns
      obtain ⟨⟨result, after⟩, rfl⟩ := hends steps outcome hruns
      have hleaves := hforgets.ends_of_runs hruns
      exact ⟨result, after, rfl, hleaves.clear, hleaves.stack_eq⟩
    · rintro ⟨journal⟩
      obtain ⟨steps, outcome, hruns⟩ := Routine.exists_runs journal
        ((descend setting found beyond levels references).run.run s)
      obtain ⟨⟨result, after⟩, rfl⟩ := hends steps outcome hruns
      exact ⟨steps, result, after, hruns⟩

/-! ## A dependency that was made from what it needs -/

/-- A branch with one more parameter, which is the branch as it was before. -/
def grown : Dependency (Routine Unit) := branch.param ⟨3⟩ ⟨"own", branch, false⟩

theorem built_grown : Dependency.Built 4 [grown, branch, branch, bareBranch, leaf] :=
  .param (.clone built_branch List.mem_cons_self) List.mem_cons_self List.mem_cons_self le_rfl

def grownReferences : List (Reference (Dependency (Routine Unit))) :=
  [⟨"grown", grown, false⟩, ⟨"branch", branch, true⟩]

/-- The grown branch, the branch as it was before, and their leaf. -/
theorem resolve_descends_grown :
    Dependency.Built 4 [grown, branch, branch, bareBranch, leaf] ∧
    (∀ reference ∈ grownReferences,
      reference.target ∈ [grown, branch, branch, bareBranch, leaf]) ∧
    ({} : Descent).Clear ∧ Refers grown.params ⟨"leaf", leaf, true⟩ ∧ leaf.id.number < 3 ∧
    forget <$> (descend ⟨{ method := .get, path := "/" }, []⟩ failCycle
        (throw (.panic "no level is left")) 4 grownReferences).run.run {} =
      (resolve ⟨{ method := .get, path := "/" }, []⟩ grownReferences).run.run {} ∧
    ∃ steps result after, ((descend ⟨{ method := .get, path := "/" }, []⟩ failCycle
        (throw (.panic "no level is left")) 4 grownReferences).run.run {}).Runs steps
        (.finished (result, after)) ∧
      after.Clear ∧ (panics result = false → after.stack = []) := by
  have hmem : ∀ reference ∈ grownReferences,
      reference.target ∈ [grown, branch, branch, bareBranch, leaf] := by
    simp [grownReferences]
  have hclear : ({} : Descent).Clear := by simp [Descent.Clear]
  have hrefers : Refers grown.params ⟨"leaf", leaf, true⟩ :=
    .direct (List.mem_append_left _ (List.mem_append_right _ (List.mem_singleton_self _)))
  obtain ⟨-, hsmaller, hall⟩ := resolve_descends built_grown
  obtain ⟨hforget, hleaves, hends⟩ := hall ⟨{ method := .get, path := "/" }, []⟩ grownReferences
    failCycle (throw (.panic "no level is left")) 4 {} hmem le_rfl rfl hclear
  obtain ⟨steps, result, after, hruns⟩ := hends ⟨{ state := () }⟩
  obtain ⟨_, _, hsame, hafter⟩ := hleaves steps _ hruns
  obtain ⟨rfl, rfl⟩ := Prod.mk.inj (Outcome.finished.inj hsame)
  exact ⟨built_grown, hmem, hclear, hrefers, (hsmaller grown List.mem_cons_self _ hrefers).2,
    hforget, steps, _, _, hruns, hafter⟩

example : ((World.new ()).perform ((descend ⟨{ method := .get, path := "/" }, []⟩ failCycle
      (throw (.panic "no level is left")) 4 grownReferences).run.run {})).1.map
    (fun ended => (ended.2.looks, ended.2.stack)) =
      some ([⟨⟨2⟩, []⟩, ⟨⟨2⟩, [⟨3⟩]⟩, ⟨⟨0⟩, [⟨3⟩]⟩, ⟨⟨3⟩, []⟩], []) := by
  decide +kernel

/-- What is never made, a parameter with the identity of its own dependency, would be found. -/
example : ((World.new ()).perform ((descend ⟨{ method := .get, path := "/" }, []⟩ failCycle
      (throw (.panic "no level is left")) 4
      [⟨"leaf", .node ⟨0⟩ "outer" countProvider [⟨"inner", leaf, true⟩], true⟩]).run.run {})).1.map
    (fun ended => ended.2.looks) = some [⟨⟨0⟩, [⟨0⟩]⟩, ⟨⟨0⟩, []⟩] := by
  decide +kernel

end Resolver
end WebApp
