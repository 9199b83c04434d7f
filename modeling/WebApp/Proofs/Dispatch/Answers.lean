import Mathlib.Tactic
import WebApp.Error
import WebApp.Proofs.Json.Texts

/-!
# What an error is answered with by itself

A declared error is answered with the status and the fields that it has declared and a body that
is read back as its detail.  Whatever else goes wrong is answered with one and the same response,
which tells that the server has failed and nothing more.
-/

namespace WebApp

theorem Response.read_ofJson (status : Status) (entries : List (String × String)) :
    Json.read (Response.ofJson status (.ofTexts entries)).body = .ok (.ofTexts entries) := by
  have hbody : (Response.ofJson status (.ofTexts entries)).body =
      Utf8.encode (Json.ofTexts entries).render := rfl
  rw [hbody]
  exact Json.read_ofTexts entries

/-- The response tells that the server has failed, and nothing more. -/
structure Response.IsBare (response : Response) : Prop where
  status : response.status.code = 500
  body : Json.read response.body = .ok (.object [("detail", .string "Internal Server Error")])
  headers : response.headers.entries = [("Content-Type", "application/json")]

theorem Response.isBare_internalError : Response.internalError.IsBare where
  status := rfl
  body := read_ofJson .internalServerError [("detail", "Internal Server Error")]
  headers := rfl

/-- The response is the one that the error has declared. -/
structure Renders (e : HttpError) (response : Response) : Prop where
  status : response.status = e.status
  body : Json.read response.body = .ok (.object [("detail", .string e.detail)])
  headers : response.headers.entries =
    (if e.headers.contains "Content-Type" then [] else [("Content-Type", "application/json")]) ++
      e.headers.entries

theorem merge_single (entry : String × String) (h : Headers) :
    (Headers.merge ⟨[entry]⟩ h).entries =
      (if h.contains entry.1 then [] else [entry]) ++ h.entries := by
  rw [Headers.entries_merge]
  cases hown : h.contains entry.1 <;> simp [hown]

theorem renders_defaultResponse (e : HttpError) : Renders e (Error.declared e).defaultResponse where
  status := rfl
  body := by
    unfold Error.defaultResponse
    dsimp only
    rw [Response.read_ofJson]
    rfl
  headers := merge_single ("Content-Type", "application/json") e.headers

end WebApp
