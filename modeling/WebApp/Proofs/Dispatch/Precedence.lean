import Mathlib.Tactic
import WebApp.Proofs.Dispatch.Brackets

/-!
# Who answers an error

The stages of a dispatch say who answers: the handler for the type of an error, the handler for
its status, the first layer that offers a response, and last the error by itself.  Here it is
shown that this happens once.  The output of a handler of errors is not an error again, whatever
its status, and what an error is answered with by itself is what it has declared.
-/

namespace WebApp

variable {σ : Type}

namespace Core

open Round

/-! ## One handler of errors at most -/

section Grammar

variable {hook : Hook} {places : List Nat} {calls : List Label} {outcome : Outcome Response}

theorem count_passed (hook : Hook) (places : List Nat) :
    (passed hook places).count .errorHandler = 0 := by
  rw [List.count_eq_zero]
  intro hmem
  obtain ⟨_, -, hlabel⟩ := mem_passed_iff.mp hmem
  exact absurd hlabel (by simp)

theorem count_cut {place : Nat} {fate : Fate} (hcut : Cut hook places calls place fate) :
    calls.count .errorHandler = 0 := by
  obtain ⟨_, -⟩ := hcut
  rw [List.count_append, count_passed]
  rfl

theorem Handling.count_le {ended : Option (Outcome Response)} (hhandling : Handling calls ended) :
    calls.count .errorHandler ≤ 1 := by
  cases hhandling <;> decide

theorem Answering.count_le {n : Nat} {ended : Option (Outcome Response)}
    (hanswering : Answering n calls ended) : calls.count .errorHandler ≤ 1 := by
  cases hanswering with
  | handling hhandling => exact hhandling.count_le
  | unanswered =>
      rw [count_passed]
      exact Nat.zero_le 1
  | answered hcut | stopped hcut _ =>
      rw [count_cut hcut]
      exact Nat.zero_le 1

theorem WayOut.count_eq {depth : Nat} {ended : Option (Outcome Response)}
    (hout : WayOut depth ended calls outcome) : calls.count .errorHandler = 0 := by
  cases hout with
  | never => rfl
  | through => exact count_passed _ _
  | stopped hcut _ => exact count_cut hcut

/-- A dispatch calls a handler of errors once at most. -/
theorem Bracketed.count_le {n : Nat} {serving : List Label}
    (hserving : serving.count .errorHandler = 0)
    (hbracketed : Bracketed n serving calls outcome) : calls.count .errorHandler ≤ 1 := by
  cases hbracketed with
  | stopped hcut _ _ =>
      rw [count_cut hcut]
      exact Nat.zero_le 1
  | rejected hcut _ hhandling hout =>
      rw [List.count_append, List.count_append, count_cut hcut, hout.count_eq, Nat.zero_add]
      exact hhandling.count_le
  | entered hanswering hout =>
      rw [List.count_append, List.count_append, List.count_append, count_passed, hserving,
        hout.count_eq, Nat.zero_add, Nat.add_zero]
      exact hanswering.count_le

end Grammar

/-! ## The property -/

/-- Every dispatch goes through its stages: what the response is made from, a decision by one
precedence, and the way out for what was decided.  It calls a handler of errors once at most.
What an error is answered with by itself is what it has declared, with a body that is read
back as its detail; the answer to a path that no route matches is always the same; and every
unexpected error is answered with the bare answer, a 500 that tells nothing of it. -/
theorem dispatch_decided_once (core : Core (Routine σ)) (endpoint : Option (Endpoint (Routine σ)))
    (request : Request) {steps : List (Step σ)} {outcome : Outcome Response}
    (hruns : (core.dispatch endpoint request).Runs steps outcome) :
    (∃ trace, steps = trace.flatMap Deed.steps ∧
      Dispatches core endpoint request trace outcome ∧
      (Deed.calls trace).count .errorHandler ≤ 1) ∧
    (∀ e, Renders e (Cause.raised (.declared e)).fallback ∧
      Renders e (Cause.rejected (.declared e)).fallback) ∧
    (Cause.notFound.fallback.status = .notFound ∧
      Json.read Cause.notFound.fallback.body =
        .ok (.ofTexts [("error", "Not Found"), ("detail", "No route found")])) ∧
    (∀ e trace, (Cause.raised (.unexpected e trace)).fallback = .internalError) ∧
    Response.internalError.IsBare := by
  have hbody : Cause.notFound.fallback.body = (Response.ofJson .notFound
      (.ofTexts [("error", "Not Found"), ("detail", "No route found")])).body := rfl
  refine ⟨?_, fun e => ⟨renders_defaultResponse e, renders_defaultResponse e⟩, ⟨rfl, ?_⟩,
    fun _ _ => rfl, Response.isBare_internalError⟩
  · obtain ⟨trace, hsteps, hdispatches⟩ := dispatch_dispatches hruns
    have hserving : (endpoint.map fun _ => Label.endpoint).toList.count .errorHandler = 0 := by
      cases endpoint <;> rfl
    exact ⟨trace, hsteps, hdispatches, hdispatches.bracketed.count_le hserving⟩
  · rw [hbody, Response.read_ofJson]

/-! ## A handler whose output has the status of an error -/

/-- A path that no route matches is answered with the status of a failure, for which there is a
handler as well. -/
def swappingCore : Core (Routine Unit) :=
  { handlers := { byStatus := [(.notFound, fun _ _ => pure (.new .internalServerError)),
      (.internalServerError, fun _ _ => pure (.new .ok))] } }

theorem dispatch_decided_once_swapping :
    ∃ steps, (swappingCore.dispatch none { method := .get, path := "/" }).Runs steps
        (.finished (.new .internalServerError)) ∧
      ∃ trace, steps = trace.flatMap Deed.steps ∧
        Dispatches swappingCore none { method := .get, path := "/" } trace
          (.finished (.new .internalServerError)) ∧
        (Deed.calls trace).count .errorHandler ≤ 1 := by
  have hruns : (swappingCore.dispatch none { method := .get, path := "/" }).Runs
      [.openQueue ⟨0⟩, .release ⟨0⟩ false] (.finished (.new .internalServerError)) :=
    ⟨⟨0⟩, [.openQueue ⟨0⟩], [.release ⟨0⟩ false], rfl, rfl,
      false, [.release ⟨0⟩ false], [], rfl, rfl, rfl, rfl⟩
  exact ⟨_, hruns, (dispatch_decided_once _ _ _ hruns).1⟩

end Core
end WebApp
