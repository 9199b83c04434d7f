import Mathlib.Tactic
import WebApp.Proofs.Dispatch.Teardowns
import WebApp.Proofs.Endpoint.Inputs

/-!
# What a handler is given

Before anything else is done for an endpoint, all inputs that it declares are taken from the
request.  Either all of them can be taken, and then the handler gets a value under each declared
name, that of its last declaration; or nothing is done at all, and the error names all inputs that
cannot be taken, in the order of their declaration, each with its reason.
-/

namespace WebApp
namespace Core

variable {σ : Type}

/-- If all inputs that an endpoint declares can be taken, each of its runs serves the request with a
value under each declared name, that of its last declaration.  Otherwise nothing is done, and the
error has the reasons of just the inputs that cannot be taken, in the order of their declaration.
The value of a query parameter that is there is what its text stands for, whatever stands for an
absent one. -/
theorem invoke_fills (core : Core (Routine σ)) (endpoint : Endpoint (Routine σ))
    (request : Request) (background : Queue) :
    ((∀ p ∈ endpoint.params, ∃ value, p.Takes request value) →
      ∃ arguments, Arguments.Fills endpoint.params request arguments ∧
        ∀ steps outcome, (core.invoke endpoint request background).Runs steps outcome →
          ∃ calls handling releases handed joining ended result,
            steps = calls.flatMap Resolver.Provision.steps ++ handling ++
              releases.flatMap Scope.Release.steps ++ handed ++ joining ∧
            Served core endpoint request arguments background calls handling releases handed
              ended ∧
            ended.Joins joining result ∧ outcome = .finished result) ∧
    ((¬ ∀ p ∈ endpoint.params, ∃ value, p.Takes request value) →
      ∃ e reasons, core.invoke endpoint request background = pure (.error (.declared e)) ∧
        e.status.code = 422 ∧ e.headers = {} ∧
        e.detail = "validation failed: " ++ String.intercalate "; " reasons ∧
        Arguments.Refusals request endpoint.params reasons) ∧
    ∀ p ∈ endpoint.params, ∀ c absent raw, p.source = .query c absent →
      request.queryParam? p.name = some raw →
      ∀ value, p.Takes request value ↔ c.Denotes raw value := by
  refine ⟨?_, ?_, ?_⟩
  · intro htaken
    obtain ⟨arguments, hbind, hfills⟩ := Arguments.bind_of_taken htaken
    refine ⟨arguments, hfills, ?_⟩
    intro steps outcome hruns
    have hinvoke : core.invoke endpoint request background = (do
        (← Tasks.await (core.serve endpoint request arguments background)).join) := by
      rw [invoke, Endpoint.bind, hbind]
    rw [hinvoke] at hruns
    obtain ⟨serving, joining, ended, result, rfl, hserve, hjoins, rfl⟩ :=
      (Routine.runs_await_join _ _ _).mp hruns
    obtain ⟨calls, handling, releases, handed, rfl, hserved⟩ :=
      serve_served core endpoint request arguments background hserve
    exact ⟨calls, handling, releases, handed, joining, ended, result, rfl, hserved, hjoins, rfl⟩
  · intro hrefused
    obtain ⟨reasons, hreasons⟩ := Arguments.exists_refusals request endpoint.params
    have hsome : reasons ≠ [] := fun hnone => hrefused (hreasons.eq_nil_iff.mp hnone)
    refine ⟨.new .unprocessableEntity
      ("validation failed: " ++ String.intercalate "; " reasons), reasons, ?_, rfl, rfl, rfl,
      hreasons⟩
    rw [invoke, Endpoint.bind, Arguments.bind_of_refused hreasons hsome]
  · intro p _ c absent raw hsource hraw value
    exact Param.takes_iff_of_query hsource hraw

/-- An endpoint that declares one name twice. -/
def listing : Endpoint (Routine Unit) where
  name := "listing"
  handler _ := pure (.ok (.new .ok))
  params := [⟨"page", .query .integer (some (.ofInt 1))⟩, ⟨"page", .query .text none⟩,
    ⟨"all", .query .flag none⟩, ⟨"order", .query .json none⟩, ⟨"weight", .query .number none⟩,
    ⟨"shelf", .path .integer⟩]

/-- A request with these fields in its query. -/
def asking (fields : List (String × String)) : Request where
  method := .get
  path := "/shelves/-7"
  queryParams := fields
  pathParams := [("shelf", "-7")]

/-- A request that has all inputs. -/
def askingAll : Request :=
  asking [("page", "2"), ("all", "Yes"), ("order", "[]"), ("weight", "-2.5e0")]

theorem takes_shelf (fields : List (String × String)) :
    Param.Takes (asking fields) ⟨"shelf", .path .integer⟩ (.ofInt (-7)) :=
  .path rfl rfl (.integer (by decide) (by decide) (by decide))

theorem takes_listing : List.Forall₂ (Param.Takes askingAll) listing.params
    [.ofInt 2, .string "2", .bool true, .array [], .number (.float ⟨0xC004000000000000⟩),
      .ofInt (-7)] := by
  have hpage : Text.integer? "2" = some 2 := by decide
  have hall : Text.fold "Yes" ∈ ["true", "1", "yes", "on"] := by decide
  have horder : Json.read (Utf8.encode "[]") = .ok (.array []) := by rfl
  have hweight : Binary64.readFinite? "-2.5e0" = some ⟨0xC004000000000000⟩ := by rfl
  exact .cons (.query rfl rfl (.integer hpage (by decide) (by decide)))
    (.cons (.query rfl rfl (.text "2")) (.cons (.query rfl rfl (.yes hall))
      (.cons (.query rfl rfl (.json horder)) (.cons (.query rfl rfl (.number hweight))
        (.cons (takes_shelf _) .nil)))))

/-- A request with all inputs; and one in which three are missing or no JSON. -/
theorem invoke_fills_listing :
    (∃ arguments, Arguments.Fills listing.params askingAll arguments ∧
      arguments.get? "page" = some (.string "2") ∧ arguments.get? "all" = some (.bool true) ∧
      arguments.get? "weight" = some (.number (.float ⟨0xC004000000000000⟩)) ∧
      arguments.get? "shelf" = some (.ofInt (-7))) ∧
    ∃ e, ({} : Core (Routine Unit)).invoke listing
          (asking [("order", ""), ("weight", "2.5")]) ⟨0⟩ = pure (.error (.declared e)) ∧
      e.status.code = 422 ∧
      e.detail = "validation failed: page: missing query parameter; " ++
        "all: missing query parameter; " ++
        "order: invalid JSON: EOF while parsing a value at line 1 column 0" := by
  constructor
  · have hlisting := takes_listing
    simp only [listing, List.forall₂_cons] at hlisting
    obtain ⟨hcount, hpage, hall, horder, hweight, hshelf, -⟩ := hlisting
    have htaken : ∀ p ∈ listing.params, ∃ value, p.Takes askingAll value := by
      simp only [listing, List.forall_mem_cons, List.not_mem_nil, false_implies, implies_true,
        and_true]
      exact ⟨⟨_, hcount⟩, ⟨_, hpage⟩, ⟨_, hall⟩, ⟨_, horder⟩, ⟨_, hweight⟩, ⟨_, hshelf⟩⟩
    obtain ⟨arguments, hfills, -⟩ := (invoke_fills {} listing askingAll ⟨0⟩).1 htaken
    -- Of the two declarations of a page the second one counts.
    exact ⟨arguments, hfills,
      hfills.get?_of_takes [_] [_, _, _, _] hpage rfl (by simp),
      hfills.get?_of_takes [_, _] [_, _, _] hall rfl (by simp),
      hfills.get?_of_takes [_, _, _, _] [_] hweight rfl (by simp),
      hfills.get?_of_takes [_, _, _, _, _] [] hshelf rfl (by simp)⟩
  · have hweight : Binary64.readFinite? "2.5" = some ⟨0x4004000000000000⟩ := by rfl
    have hreasons : Arguments.Refusals (asking [("order", ""), ("weight", "2.5")])
        listing.params _ :=
      .taken (.absent rfl rfl) (.refused (.noQuery rfl rfl) (.refused (.noQuery rfl rfl)
        (.refused (.query rfl rfl (.json rfl)) (.taken (.query rfl rfl (.number hweight))
          (.taken (takes_shelf _) .nil)))))
    have hrefused : ¬ ∀ p ∈ listing.params,
        ∃ value, p.Takes (asking [("order", ""), ("weight", "2.5")]) value := by
      rw [← hreasons.eq_nil_iff]
      simp
    obtain ⟨e, reasons, hinvoke, hcode, -, hdetail, hothers⟩ :=
      (invoke_fills {} listing (asking [("order", ""), ("weight", "2.5")]) ⟨0⟩).2.1 hrefused
    refine ⟨e, hinvoke, hcode, ?_⟩
    rw [hdetail, hothers.unique hreasons]
    decide +kernel

end Core
end WebApp
