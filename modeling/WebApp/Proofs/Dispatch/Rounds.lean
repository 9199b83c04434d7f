import Mathlib.Tactic
import WebApp.Dispatch
import WebApp.Proofs.Task.Runs

/-!
# Rounds of the layers

On the way in, for an error, and on the way out, a dispatch asks the layers one after another,
until it has asked them all or one of them ends the round.  What a round does in a run is a list
of deeds: one for each layer that was asked, with its place in the chain and how it went.
-/

namespace WebApp

universe u

/-- How a call of a hook went. -/
inductive Fate where
  | passed
  /-- The hook has offered a response for an error. -/
  | answered
  | failed (e : Error)
  | panicked (text : String)
deriving DecidableEq

/-- What a dispatch does, or has done for it. -/
inductive Label where
  | hook (hook : Hook) (place : Nat) (fate : Fate)
  /-- Serves the request: takes the inputs, resolves, handles and releases. -/
  | endpoint
  | errorHandler
  /-- Reports, and minds the queue of background work. -/
  | own
deriving DecidableEq

structure Deed (σ : Type) : Type 1 where
  label : Label
  steps : List (Step σ)

/-- How the layers are asked one after another.  Each gets what the last one has left, and says
what the next one gets, or why there is no next one. -/
structure Round (m : Type → Type u) (α β γ : Type) where
  hook : Hook
  ask : Layer m → α → m β
  verdict : β → α ⊕ γ
  fate : γ → Fate

namespace Round

section Programs

variable {m : Type → Type u}

def run [Monad m] {α β γ : Type} (round : Round m α β γ) :
    List (Layer m × Nat) → α → m (α ⊕ String × Nat × γ)
  | [], state => return .inl state
  | (layer, place) :: rest, state => do
    match round.verdict (← round.ask layer state) with
    | .inl state => round.run rest state
    | .inr cause => return .inr (layer.name, place, cause)

/-- A layer that fails ends the round; what it has changed before is kept. -/
def unlessFailed {α : Type} : α × Option Error → α ⊕ α × Error
  | (state, none) => .inl state
  | (state, some e) => .inr (state, e)

def entering (m : Type → Type u) : Round m Request (Request × Option Error) (Request × Error) where
  hook := .beforeRequest
  ask layer := layer.before
  verdict := unlessFailed
  fate cause := .failed cause.2

def leaving (m : Type → Type u) (request : Request) :
    Round m Response (Response × Option Error) (Response × Error) where
  hook := .afterRequest
  ask layer := layer.after request
  verdict := unlessFailed
  fate cause := .failed cause.2

def offering (m : Type → Type u) (request : Request) (e : Error) :
    Round m Unit (Except Error (Option Response)) (Except Error Response) where
  hook := .onError
  ask layer _ := layer.onError request e
  verdict
    | .error failed => .inr (.error failed)
    | .ok (some response) => .inr (.ok response)
    | .ok none => .inl ()
  fate
    | .error failed => .failed failed
    | .ok _ => .answered

variable [Monad m] [LawfulMonad m] [Reports m]

def failure (name : String) (hook : Hook) (e : Error) : m HookFailure :=
  (Layer.idle m name).failure hook e

theorem beforeFrom_eq (completed : Nat) (chain : Chain m) (request : Request) :
    chain.beforeFrom completed request = (do
      match ← (entering m).run (chain.zipIdx completed) request with
      | .inl request => return (request, none)
      | .inr (name, place, request, e) =>
        if e.isDeclared then
          return (request, some (.rejected place e))
        else
          return (request, some (.fatal (← failure name .beforeRequest e)))) := by
  -- The number of layers that have passed is the place of the next one.
  induction chain generalizing completed request with
  | nil => simp [Chain.beforeFrom, run]
  | cons layer rest ih =>
      rw [Chain.beforeFrom, List.zipIdx_cons, run, bind_assoc]
      congr 1
      funext asked
      obtain ⟨request, _ | e⟩ := asked
      · exact ih (completed + 1) request
      · simp only [entering, unlessFailed, pure_bind]
        rfl

theorem afterEach_eq (request : Request) (layers : List (Layer m × Nat)) (response : Response) :
    Chain.afterEach request (layers.map Prod.fst) response = (do
      match ← (leaving m request).run layers response with
      | .inl response => return (response, none)
      | .inr (name, _, response, e) =>
        return (response, some (← failure name .afterRequest e))) := by
  induction layers generalizing response with
  | nil => simp [Chain.afterEach, run]
  | cons layer rest ih =>
      obtain ⟨layer, place⟩ := layer
      rw [List.map_cons, Chain.afterEach, run, bind_assoc]
      congr 1
      funext asked
      obtain ⟨response, _ | e⟩ := asked
      · exact ih response
      · simp only [leaving, unlessFailed, pure_bind]
        rfl

theorem runAfter_eq (chain : Chain m) (depth : Nat) (request : Request) (response : Response) :
    chain.runAfter depth request response = (do
      match ← (leaving m request).run (chain.zipIdx.take depth).reverse response with
      | .inl response => return (response, none)
      | .inr (name, _, response, e) =>
        return (response, some (← failure name .afterRequest e))) := by
  have hlayers : (chain.take depth).reverse = (chain.zipIdx.take depth).reverse.map Prod.fst := by
    rw [List.map_reverse, List.map_take, List.zipIdx_map_fst]
  rw [Chain.runAfter, hlayers, afterEach_eq]

theorem runOnError_eq (chain : Chain m) (request : Request) (e : Error) (first : Nat) :
    chain.runOnError request e = (do
      match ← (offering m request e).run (chain.zipIdx first) () with
      | .inl () => return .ok none
      | .inr (_, _, .ok response) => return .ok (some response)
      | .inr (name, _, .error failed) => return .error (← failure name .onError failed)) := by
  induction chain generalizing first with
  | nil => simp [Chain.runOnError, run]
  | cons layer rest ih =>
      rw [Chain.runOnError, List.zipIdx_cons, run, bind_assoc]
      congr 1
      funext asked
      rcases asked with failed | _ | response
      · simp only [offering, pure_bind]
        rfl
      · exact ih (first + 1)
      · simp only [offering, pure_bind]

end Programs

/-! ## Rounds in a run -/

variable {σ α β γ : Type}

/-- With these deeds a round through the layers comes to its end. -/
inductive Went (round : Round (Routine σ) α β γ) : List (Layer (Routine σ) × Nat) → α →
    List (Deed σ) → Outcome (α ⊕ String × Nat × γ) → Prop where
  | through (state : α) : Went round [] state [] (.finished (.inl state))
  | pass {layer : Layer (Routine σ)} {place : Nat} {rest : List (Layer (Routine σ) × Nat)}
      {state next : α} {steps : List (Step σ)} {answer : β} {deeds : List (Deed σ)}
      {ended : Outcome (α ⊕ String × Nat × γ)} :
      (round.ask layer state).Runs steps (.finished answer) → round.verdict answer = .inl next →
      Went round rest next deeds ended →
      Went round ((layer, place) :: rest) state (⟨.hook round.hook place .passed, steps⟩ :: deeds)
        ended
  | stop {layer : Layer (Routine σ)} {place : Nat} {state : α} {steps : List (Step σ)} {answer : β}
      {cause : γ} (rest : List (Layer (Routine σ) × Nat)) :
      (round.ask layer state).Runs steps (.finished answer) → round.verdict answer = .inr cause →
      Went round ((layer, place) :: rest) state [⟨.hook round.hook place (round.fate cause), steps⟩]
        (.finished (.inr (layer.name, place, cause)))
  | panic {layer : Layer (Routine σ)} {place : Nat} {state : α} {steps : List (Step σ)}
      {text : String} (rest : List (Layer (Routine σ) × Nat)) :
      (round.ask layer state).Runs steps (.panicked text) →
      Went round ((layer, place) :: rest) state
        [⟨.hook round.hook place (.panicked text), steps⟩] (.panicked text)

variable {round : Round (Routine σ) α β γ} {layers : List (Layer (Routine σ) × Nat)}
variable {state : α} {steps : List (Step σ)} {deeds : List (Deed σ)}
variable {ended : Outcome (α ⊕ String × Nat × γ)}

theorem exists_went (hruns : (round.run layers state).Runs steps ended) :
    ∃ deeds, steps = deeds.flatMap Deed.steps ∧ round.Went layers state deeds ended := by
  induction layers generalizing state steps with
  | nil =>
      obtain ⟨rfl, rfl⟩ := hruns
      exact ⟨[], rfl, .through state⟩
  | cons layer rest ih =>
      obtain ⟨layer, place⟩ := layer
      rw [run, Routine.runs_bind] at hruns
      rcases hruns with ⟨text, hpanic, rfl⟩ | ⟨answer, first, last, rfl, hask, hlast⟩
      · exact ⟨[⟨_, steps⟩], by simp, .panic rest hpanic⟩
      · cases hverdict : round.verdict answer with
        | inl next =>
            rw [hverdict] at hlast
            obtain ⟨deeds, rfl, hwent⟩ := ih hlast
            exact ⟨⟨_, first⟩ :: deeds, by simp, .pass hask hverdict hwent⟩
        | inr cause =>
            rw [hverdict] at hlast
            obtain ⟨rfl, rfl⟩ := hlast
            exact ⟨[⟨_, first⟩], by simp, .stop rest hask hverdict⟩

def passed (hook : Hook) (places : List Nat) : List Label :=
  places.map fun place => .hook hook place .passed

theorem Went.labels_of_through {next : α}
    (hwent : round.Went layers state deeds (.finished (.inl next))) :
    deeds.map Deed.label = passed round.hook (layers.map Prod.snd) := by
  generalize hended : (Outcome.finished (Sum.inl next) : Outcome (α ⊕ String × Nat × γ)) = ended
    at hwent
  induction hwent with
  | through => rfl
  | pass _ _ _ ih => simpa [passed] using ih hended
  | stop => simp at hended
  | panic => simp at hended

theorem Went.labels_of_stop
    (hwent : round.Went layers state deeds ended)
    (hended : ∀ next, ended ≠ .finished (.inl next)) :
    ∃ done place missed fate, layers.map Prod.snd = done ++ place :: missed ∧
      deeds.map Deed.label = passed round.hook done ++ [.hook round.hook place fate] ∧
      ((∃ name cause, ended = .finished (.inr (name, place, cause)) ∧ fate = round.fate cause) ∨
        ∃ text, ended = .panicked text ∧ fate = .panicked text) := by
  induction hwent with
  | through next => exact absurd rfl (hended next)
  | @pass _ place _ _ _ _ _ _ _ _ _ _ ih =>
      obtain ⟨done, last, missed, fate, hplaces, hlabels, hlast⟩ := ih hended
      exact ⟨place :: done, last, missed, fate, by simp [hplaces], by simp [hlabels, passed], hlast⟩
  | @stop layer place _ _ _ cause rest _ _ =>
      exact ⟨[], place, rest.map Prod.snd, round.fate cause, rfl, rfl, .inl ⟨_, _, rfl, rfl⟩⟩
  | @panic layer place _ _ text rest _ =>
      exact ⟨[], place, rest.map Prod.snd, .panicked text, rfl, rfl, .inr ⟨text, rfl, rfl⟩⟩

def fateOf (round : Round (Routine σ) α β γ) : Outcome β → Fate
  | .panicked text => .panicked text
  | .finished answer =>
    match round.verdict answer with
    | .inl _ => .passed
    | .inr cause => round.fate cause

/-- Each deed of a round is a call of a layer's hook, in its place and with its end. -/
theorem Went.exists_call (hwent : round.Went layers state deeds ended) {deed : Deed σ}
    (hdeed : deed ∈ deeds) :
    ∃ layer place given answered, (layer, place) ∈ layers ∧
      (round.ask layer given).Runs deed.steps answered ∧
      deed.label = .hook round.hook place (round.fateOf answered) := by
  induction hwent with
  | through => simp at hdeed
  | pass hask hverdict _ ih =>
      rcases List.mem_cons.mp hdeed with rfl | hdeed
      · exact ⟨_, _, _, _, List.mem_cons_self, hask, by simp [fateOf, hverdict]⟩
      · obtain ⟨layer, place, given, answered, hmem, hrest⟩ := ih hdeed
        exact ⟨layer, place, given, answered, List.mem_cons_of_mem _ hmem, hrest⟩
  | stop rest hask hverdict =>
      rw [List.mem_singleton.mp hdeed]
      exact ⟨_, _, _, _, List.mem_cons_self, hask, by simp [fateOf, hverdict]⟩
  | panic rest hask =>
      rw [List.mem_singleton.mp hdeed]
      exact ⟨_, _, _, _, List.mem_cons_self, hask, rfl⟩

end Round
end WebApp
