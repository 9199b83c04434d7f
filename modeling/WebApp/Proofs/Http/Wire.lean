import Mathlib.Tactic
import WebApp.Http.Response
import WebApp.Proofs.Text.Utf8

/-!
# The connection field on the wire

A response names the connection field in its head, with the value that says whether the
connection stays open, whatever fields it has of its own.
-/

namespace WebApp

namespace Headers

/-- A field that was set is there under the name, in some spelling. -/
theorem exists_mem_setEntries (name value : String) (entries : List (String × String)) :
    ∃ spelling, Text.sameFolded spelling name = true ∧
      (spelling, value) ∈ setEntries name value entries := by
  induction entries with
  | nil => exact ⟨name, Text.sameFolded_self name, by simp [setEntries]⟩
  | cons entry rest ih =>
      by_cases hnamed : named name entry = true
      · exact ⟨entry.1, hnamed, by simp [setEntries, hnamed]⟩
      · obtain ⟨spelling, hsame, hmem⟩ := ih
        exact ⟨spelling, hsame, by simp [setEntries, hnamed, hmem]⟩

/-- The line of a field stands in the text of the fields. -/
theorem line_infix_text {h : Headers} {name value : String} (hmem : (name, value) ∈ h.entries) :
    Utf8.encode (": " ++ value ++ "\r\n") <:+: Utf8.encode h.text := by
  obtain ⟨before, after, hentries⟩ := List.append_of_mem hmem
  refine ⟨Utf8.encode ((Headers.mk before).text ++ name), Utf8.encode (Headers.mk after).text, ?_⟩
  have htext : h.text =
      (Headers.mk before).text ++ name ++ (": " ++ value ++ "\r\n") ++ (Headers.mk after).text := by
    simp [text, hentries, String.join_append, String.append_assoc]
  simp only [htext, Utf8.encode_append]

end Headers

namespace Response

def connection (r : Response) : String :=
  if r.keepAlive then "keep-alive" else "close"

theorem exists_mem_wireHeaders (r : Response) :
    ∃ spelling, (spelling, r.connection) ∈ r.wireHeaders.entries := by
  obtain ⟨spelling, hsame, hmem⟩ := Headers.exists_mem_setEntries "Connection" r.connection
    (if !r.body.isEmpty && !r.headers.contains "content-type" then
      r.headers.insert "Content-Type" "text/plain; charset=utf-8"
    else r.headers).entries
  refine ⟨spelling, List.mem_filter.mpr ⟨hmem, ?_⟩⟩
  have hfold : Text.fold spelling = Text.fold "Connection" := by
    simpa [Text.sameFolded] using hsame
  have hother : Text.fold "Connection" ≠ Text.fold "content-length" := by decide
  simp [Headers.named, Text.sameFolded, hfold, hother]

/-- The value of the connection field stands on the wire. -/
theorem connection_infix_wire (r : Response) :
    Utf8.encode (": " ++ r.connection ++ "\r\n") <:+: r.wire := by
  obtain ⟨spelling, hmem⟩ := r.exists_mem_wireHeaders
  have hheaders := Headers.line_infix_text hmem
  have hwire : Utf8.encode r.wireHeaders.text <:+: r.wire := by
    simp only [wire, Utf8.encode_append, List.append_assoc]
    refine ⟨Utf8.encode "HTTP/1.1 " ++ (Utf8.encode r.status.text ++ Utf8.encode "\r\n"),
      Utf8.encode "Content-Length: " ++ (Utf8.encode (toString r.body.length) ++
        (Utf8.encode "\r\n\r\n" ++ r.body)), ?_⟩
    simp only [List.append_assoc]
  exact hheaders.trans hwire

theorem wire_ne_nil (r : Response) : r.wire ≠ [] := by
  have hversion : Utf8.encode "HTTP/1.1 " ≠ [] := by decide +kernel
  simp [wire, Utf8.encode_append, hversion]

end Response

end WebApp
