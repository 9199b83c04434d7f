import Mathlib.Tactic
import WebApp.Proofs.App.ImplicitOptions
import WebApp.Proofs.Routing.Routers

/-!
# Including a router

An application that includes a router registers its routes in order and stops at the first that it
refuses.  What this comes to is said in terms of single registrations, each with the application
that those before it have left.
-/

namespace WebApp
namespace App

universe u

variable {m : Type → Type u} [Monad m]

/-- Each of these routes is accepted after those before it. -/
def AcceptsAll (app : App m) (routes : List (Route (Endpoint m))) : Prop :=
  ∀ front route back, routes = front ++ route :: back →
    ((app.registerEach front).register route).1 = none

/-- What is reported of the registrations of these routes, one after another. -/
def reportsOf (app : App m) (routes : List (Route (Endpoint m))) : List Event :=
  match routes with
  | [] => []
  | route :: rest => (app.register route).2.2 ++ (app.register route).2.1.reportsOf rest

theorem registerEach_cons (app : App m) (route : Route (Endpoint m))
    (rest : List (Route (Endpoint m))) :
    app.registerEach (route :: rest) = (app.register route).2.1.registerEach rest :=
  rfl

theorem acceptsAll_nil (app : App m) : app.AcceptsAll [] := by
  intro front route back heq
  simp at heq

theorem acceptsAll_cons {app : App m} {route : Route (Endpoint m)}
    {rest : List (Route (Endpoint m))} (hroute : (app.register route).1 = none)
    (hrest : (app.register route).2.1.AcceptsAll rest) : app.AcceptsAll (route :: rest) := by
  intro front other back heq
  cases front with
  | nil =>
      rw [List.nil_append, List.cons.injEq] at heq
      rw [← heq.1]
      exact hroute
  | cons first front =>
      rw [List.cons_append, List.cons.injEq] at heq
      rw [registerEach_cons, ← heq.1]
      exact hrest front other back heq.2

/-- The routes are registered one after another, up to the first that is refused. -/
inductive Included (app : App m) (routes : List (Route (Endpoint m))) :
    Option RegistryError × App m × List Event → Prop where
  | whole : app.AcceptsAll routes →
      Included app routes (none, app.registerEach routes, app.reportsOf routes)
  | refused {front back : List (Route (Endpoint m))} {route : Route (Endpoint m)}
      {e : RegistryError} :
      routes = front ++ route :: back → app.AcceptsAll front →
      ((app.registerEach front).register route).1 = some e →
      Included app routes
        (some e, app.registerEach (front ++ [route]), app.reportsOf (front ++ [route]))

theorem registerAll_of_refused {app : App m} {route : Route (Endpoint m)}
    (rest : List (Route (Endpoint m))) {e : RegistryError}
    (hroute : (app.register route).1 = some e) :
    app.registerAll (route :: rest) = (some e, (app.register route).2) := by
  rw [registerAll]
  split
  next heq =>
    rw [heq, Option.some.injEq] at hroute
    rw [heq, hroute]
  next heq => simp [heq] at hroute

theorem registerAll_of_accepted {app : App m} {route : Route (Endpoint m)}
    (rest : List (Route (Endpoint m))) (hroute : (app.register route).1 = none) :
    app.registerAll (route :: rest) =
      (((app.register route).2.1.registerAll rest).1,
        ((app.register route).2.1.registerAll rest).2.1,
        (app.register route).2.2 ++ ((app.register route).2.1.registerAll rest).2.2) := by
  rw [registerAll]
  split
  next heq => simp [heq] at hroute
  next heq => rw [heq]

theorem registerAll_included (app : App m) (routes : List (Route (Endpoint m))) :
    Included app routes (app.registerAll routes) := by
  induction routes generalizing app with
  | nil => exact .whole app.acceptsAll_nil
  | cons route rest ih =>
      cases hroute : (app.register route).1 with
      | some e =>
          have hend : (app.registerEach ([] ++ [route]), app.reportsOf ([] ++ [route])) =
              (app.register route).2 := Prod.ext rfl (List.append_nil _)
          rw [registerAll_of_refused rest hroute, ← hend]
          exact .refused rfl app.acceptsAll_nil hroute
      | none =>
          have hrest := ih (app.register route).2.1
          rw [registerAll_of_accepted rest hroute]
          generalize (app.register route).2.1.registerAll rest = made at hrest
          cases hrest with
          | whole haccepts => exact .whole (acceptsAll_cons hroute haccepts)
          | refused heq haccepts hrefused =>
              rw [heq, ← List.cons_append]
              exact .refused rfl (acceptsAll_cons hroute haccepts) hrefused

/-- A router inside two others adds to their routes what it adds to a single router, whose base is
theirs joined and whose tags are theirs in a row: its own routes in order, each below the base and
with the tags before its own.  An application that includes the outermost one registers these
routes one after another, up to the first that is refused. -/
theorem registerAll_nested (app : App m) (outer inner : Router.Plan (Endpoint m))
    (r : Router (Endpoint m)) :
    let base := Router.join outer.router.base inner.router.base
    let tags := outer.router.tags ++ inner.router.tags
    let nested := (outer.router.nest (inner.router.nest r)).routes
    let joined := (outer.router.nest inner.router).routes ++
      ((Router.tagged base tags).nest r).routes
    nested = joined ∧
      joined = outer.router.routes ++
        inner.router.routes.map (Router.placed outer.router.base outer.router.tags) ++
        r.routes.map (Router.placed base tags) ∧
      Included app joined (app.registerAll nested) := by
  intro base tags nested joined
  have hnested : nested = joined := outer.nest_nest inner r
  refine ⟨hnested, ?_, ?_⟩
  · rw [← Router.adopt_eq_placed, ← outer.routes_nest_tagged_join inner tags r]
    exact congrArg (· ++ _) (congrArg Router.routes (Router.nest_eq _ _))
  · rw [hnested]
    exact app.registerAll_included joined

end App
end WebApp
