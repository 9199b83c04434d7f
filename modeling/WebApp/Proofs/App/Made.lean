import Mathlib.Tactic
import WebApp.App

/-!
# How an application is made

An application begins with its configuration, and then gets routes, layers, handlers of errors,
overrides, shared values and hooks in any order.  What holds of a new application and is kept by
each of these holds of every application.
-/

namespace WebApp
namespace App

universe u

variable {m : Type → Type u}

/-- The applications with this configuration. -/
inductive Made [Monad m] [Reports m] (config : Config) : App m → Prop where
  | new : Made config (.new config)
  | register {app : App m} (route : Route (Endpoint m)) :
      Made config app → Made config (app.register route).2.1
  | registerAll {app : App m} (routes : List (Route (Endpoint m))) :
      Made config app → Made config (app.registerAll routes).2.1
  | addLayer {app : App m} (layer : Layer m) :
      Made config app → Made config (app.addLayer layer).1
  | onStatus {app : App m} (status : Status) (handler : ExceptionHandler m) :
      Made config app → Made config (app.onStatus status handler)
  | onType {app : App m} (typeName : String) (handler : ExceptionHandler m) :
      Made config app → Made config (app.onType typeName handler)
  | override {app : App m} (id : DependencyId) (value : Datum) :
      Made config app → Made config (app.override id value)
  | removeOverride {app : App m} (id : DependencyId) :
      Made config app → Made config (app.removeOverride id)
  | clearOverrides {app : App m} : Made config app → Made config app.clearOverrides
  | withState {app : App m} (value : Datum) : Made config app → Made config (app.withState value)
  | onStartup {app : App m} (hook : LifecycleHook m) :
      Made config app → Made config (app.onStartup hook)
  | onShutdown {app : App m} (hook : LifecycleHook m) :
      Made config app → Made config (app.onShutdown hook)

/-! ## Registration leaves the core as it is -/

theorem insert_core (app : App m) (entry : RouteEntry m) :
    (app.insert entry).2.core = app.core := by
  unfold insert
  split
  · split <;> rfl
  · dsimp only
    split <;> rfl

theorem register_core [Monad m] (app : App m) (route : Route (Endpoint m)) :
    (app.register route).2.1.core = app.core := by
  have hoptions : ∀ app : App m,
      (app.insertOptions route.method route.path).2.core = app.core := by
    intro app
    unfold insertOptions
    split
    · exact insert_core app _
    · rfl
  have hinsert := insert_core app
    { method := route.method, path := route.path, endpoint := route.endpoint, tags := route.tags }
  unfold register
  dsimp only
  split
  next e failed heq =>
    rw [heq] at hinsert
    exact hinsert
  next inserted heq =>
    rw [heq] at hinsert
    split <;> exact (hoptions inserted).trans hinsert

theorem registerAll_core [Monad m] (app : App m) (routes : List (Route (Endpoint m))) :
    (app.registerAll routes).2.1.core = app.core := by
  induction routes generalizing app with
  | nil => rfl
  | cons route rest ih =>
      have hregister := register_core app route
      unfold registerAll
      split
      next e failed events heq =>
        rw [heq] at hregister
        exact hregister
      next registered events heq =>
        rw [heq] at hregister
        exact (ih registered).trans hregister

/-- The outermost layer answers unexpected errors, and says as much as the configuration allows. -/
theorem Made.chain_eq [Monad m] [Reports m] {config : Config} {app : App m}
    (hmade : Made config app) :
    ∃ layers, app.core.chain = ErrorPage.layer m config.debug :: layers := by
  induction hmade with
  | new => exact ⟨[], rfl⟩
  | register route _ ih => rwa [register_core]
  | registerAll routes _ ih => rwa [registerAll_core]
  | addLayer layer _ ih =>
      -- Layers are added on the inside, so the first one stays where it is.
      obtain ⟨layers, hchain⟩ := ih
      refine ⟨layers ++ [layer], ?_⟩
      change _ ++ [layer] = _
      rw [hchain, List.cons_append]
  | onStatus _ _ _ ih | onType _ _ _ ih | override _ _ _ ih => exact ih
  | removeOverride _ _ ih | clearOverrides _ ih | withState _ _ ih => exact ih
  | onStartup _ _ ih | onShutdown _ _ ih => exact ih

end App
end WebApp
