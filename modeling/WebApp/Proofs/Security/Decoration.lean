import Mathlib.Tactic
import WebApp.Proofs.Security.Vary

/-!
# What sharing across origins writes

A response on its way out gets up to six fields.  They are set one after another and differ in their
names, so each of them is there once afterwards, with its value, and all other fields are what they
were.  The value of the field named Vary depends on what it was before; but once it mentions the
origin it is not written again, and a response that passes a second time stays as it is.
-/

namespace WebApp
namespace Cors

/-- The field named Vary that an origin is added with, unless it is mentioned already. -/
def varyField? (h : Headers) : Option (String × String) :=
  match h.get? "vary" with
  | some existing =>
    if Text.contains (Text.fold existing) "origin" then none
    else some ("vary", existing ++ ", Origin")
  | none => some ("vary", "Origin")

/-- The fields that a response with these fields gets for a request from an origin. -/
def written (c : Cors) (origin : Option String) (h : Headers) : List (String × String) :=
  c.controlledFields (c.grant origin).1 ++
    if (c.grant origin).2 then (varyField? h).toList else []

/-! ## Decorating as setting fields -/

theorem varyByOrigin_eq_setEach (h : Headers) :
    varyByOrigin h = h.setEach (varyField? h).toList := by
  unfold varyByOrigin varyField?
  cases h.get? "vary" with
  | none => rfl
  | some existing =>
      dsimp only
      split <;> rfl

theorem varyField?_controlled (c : Cors) (allowed : String) (h : Headers) :
    varyField? (c.controlled allowed h) = varyField? h := by
  have hvary : ∀ other ∈ controlledNames, Text.fold "vary" ≠ Text.fold other := by decide
  unfold varyField?
  rw [Headers.get?_eq_head?, Headers.get?_eq_head?, getAll_controlled c allowed h hvary]

theorem decorate_eq_setEach (c : Cors) (origin : Option String) (h : Headers) :
    c.decorate origin h = h.setEach (c.written origin h) := by
  rw [decorate_eq, written, Headers.setEach_append, ← controlled_eq_setEach]
  split
  next => rw [varyByOrigin_eq_setEach, varyField?_controlled]
  next => rfl

/-! ## The names that are written -/

theorem names_varyField? (h : Headers) :
    ((varyField? h).toList.map Prod.fst).Sublist ["vary"] := by
  unfold varyField?
  split
  next => split <;> simp
  next => simp

theorem names_written (c : Cors) (origin : Option String) (h : Headers) :
    ((c.written origin h).map Prod.fst).Sublist (controlledNames ++ ["vary"]) := by
  rw [written, List.map_append]
  apply List.Sublist.append (c.names_controlledFields _)
  split
  next => exact names_varyField? h
  next => exact List.nil_sublist _

theorem getAll_decorate_of_mem (c : Cors) (origin : Option String) (h : Headers) :
    ∀ field ∈ c.written origin h, (c.decorate origin h).getAll field.1 = [field.2] := by
  rw [decorate_eq_setEach]
  exact h.getAll_setEach (pairwise_of_names (c.names_written origin h))

/-! ## A second time -/

/-- The origin is mentioned by then. -/
theorem varyField?_decorate {c : Cors} {origin : Option String} (h : Headers)
    (hechoed : (c.grant origin).2 = true) : varyField? (c.decorate origin h) = none := by
  have hvary := c.getAll_vary_decorate origin h
  rw [if_pos hechoed] at hvary
  obtain ⟨first, rest, hvaried, hcontains⟩ := Vary.exists_varied_eq_cons (h.getAll "vary")
  have hfirst : (c.decorate origin h).get? "vary" = some first := by
    rw [Headers.get?_eq_head?, hvary, hvaried, List.head?_cons]
  simp only [varyField?, hfirst, hcontains, if_true]

/-- What would be written a second time was written the first time. -/
theorem written_decorate_subset (c : Cors) (origin : Option String) (h : Headers) :
    c.written origin (c.decorate origin h) ⊆ c.written origin h := by
  unfold written
  split
  next hechoed =>
    rw [varyField?_decorate h hechoed, Option.toList_none, List.append_nil]
    exact List.subset_append_left _ _
  next => exact List.Subset.refl _

theorem decorate_decorate (c : Cors) (origin : Option String) (h : Headers) :
    c.decorate origin (c.decorate origin h) = c.decorate origin h := by
  rw [decorate_eq_setEach c origin (c.decorate origin h)]
  apply Headers.setEach_eq_self
  intro field hfield
  exact c.getAll_decorate_of_mem origin h field (c.written_decorate_subset origin h hfield)

/-! ## The property -/

/-- A response keeps its status, its body and, as they are spelled and in their order, all fields
but those that are written, which are some of the fields about sharing and perhaps the one named
Vary.  Each of these is there once, and to pass a second time changes nothing. -/
theorem after_settles (c : Cors) (request : Request) (response : Response) :
    let written := c.written (request.headers.get? "origin") response.headers
    let after := c.after request response
    after.status = response.status ∧ after.body = response.body ∧
    after.keepAlive = response.keepAlive ∧
    (∀ field ∈ written, field.1 ∈ controlledNames ∨ field.1 = "vary") ∧
    after.headers.others (written.map Prod.fst) =
      response.headers.others (written.map Prod.fst) ∧
    (∀ field ∈ written, after.headers.getAll field.1 = [field.2]) ∧
    c.after request after = after := by
  intro written after
  have hheaders : after.headers = response.headers.setEach written :=
    c.decorate_eq_setEach (request.headers.get? "origin") response.headers
  refine ⟨rfl, rfl, rfl, ?_, ?_, ?_, ?_⟩
  · intro field hfield
    have hname := (c.names_written _ response.headers).subset (List.mem_map_of_mem hfield)
    rwa [List.mem_append, List.mem_singleton] at hname
  · rw [hheaders]
    exact response.headers.others_setEach _ (List.Subset.refl _)
  · exact c.getAll_decorate_of_mem (request.headers.get? "origin") response.headers
  · have htwice := c.decorate_decorate (request.headers.get? "origin") response.headers
    exact congrArg (fun headers => { response with headers := headers }) htwice

end Cors
end WebApp
