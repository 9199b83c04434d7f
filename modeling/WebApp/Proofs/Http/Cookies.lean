import Mathlib.Tactic
import WebApp.Http.Request
import WebApp.Proofs.Assoc
import WebApp.Proofs.Text.Trimming

/-!
# Cookies as a client writes them

A client spreads its cookies over any number of fields, several to a field with semicolons between
them, and it may put blanks around names and values and other text between cookies.  Whatever it
does, the cookies of the request are the ones it wrote, and of several with one name the last.
-/

namespace WebApp

/-- A name and a value that a field can carry. -/
structure Cookie where
  name : String
  value : String
  name_trimmed : Text.Trimmed name
  value_trimmed : Text.Trimmed value
  name_plain : '=' ∉ name.toList ∧ ';' ∉ name.toList
  value_plain : ';' ∉ value.toList

namespace Cookie

/-- What stands between the semicolons of a field. -/
inductive Segment where
  /-- A cookie, with blanks before and behind its name and its value. -/
  | cookie (c : Cookie) (beforeName behindName beforeValue behindValue : Text.Blanks)
  /-- Something that is no cookie. -/
  | other (text : String) (plain : '=' ∉ text.toList ∧ ';' ∉ text.toList)

namespace Segment

def text : Segment → String
  | cookie c beforeName behindName beforeValue behindValue =>
    beforeName.val ++ c.name ++ behindName.val ++ "=" ++
      (beforeValue.val ++ c.value ++ behindValue.val)
  | other text _ => text

def cookie? : Segment → Option Cookie
  | cookie c _ _ _ _ => some c
  | other _ _ => none

end Segment

/-- A field of a request: one that carries cookies, whatever the case of its name, or another. -/
inductive Line where
  | cookies (name : String) (named : Text.sameFolded name "cookie" = true)
      (segments : List Segment)
  | other (name value : String) (unnamed : Text.sameFolded name "cookie" = false)

namespace Line

/-- The field as it is held by the request. -/
def entry : Line → String × String
  | cookies name _ segments => (name, String.intercalate ";" (segments.map Segment.text))
  | other name value _ => (name, value)

/-- The cookies that a client has put into the field, in order. -/
def written : Line → List Cookie
  | cookies _ _ segments => segments.filterMap Segment.cookie?
  | other _ _ _ => []

end Line

/-! ## One segment -/

theorem notMem_blanks {c : Char} (hc : Text.isBlank c = false) (blanks : Text.Blanks) :
    c ∉ blanks.val.toList := by
  intro hmem
  rw [blanks.property c hmem] at hc
  exact Bool.noConfusion hc

/-- Blanks around the whole segment do not count, as both parts are trimmed. -/
theorem cookie?_eq (segment : String) :
    Request.cookie? segment =
      (Text.splitOnce '=' segment).map fun parts => (Text.trim parts.1, Text.trim parts.2) :=
  Text.map_trim_splitOnce_trim (by decide) segment

theorem cookie?_text (segment : Segment) :
    Request.cookie? segment.text = segment.cookie?.map fun c => (c.name, c.value) := by
  rw [cookie?_eq]
  cases segment with
  | cookie c beforeName behindName beforeValue behindValue =>
      have hblank : Text.isBlank '=' = false := by decide
      have hsplit : Text.splitOnce '='
          (Segment.cookie c beforeName behindName beforeValue behindValue).text =
            some (beforeName.val ++ c.name ++ behindName.val,
              beforeValue.val ++ c.value ++ behindValue.val) := by
        rw [Text.splitOnce_eq_some_iff]
        refine ⟨by simp [Segment.text], ?_⟩
        simp only [String.toList_append, List.mem_append, not_or]
        exact ⟨⟨notMem_blanks hblank _, c.name_plain.1⟩, notMem_blanks hblank _⟩
      rw [hsplit, Option.map_some, Text.trim_between _ _ c.name_trimmed,
        Text.trim_between _ _ c.value_trimmed]
      rfl
  | other text plain =>
      rw [Segment.text, Text.splitOnce_eq_none_iff.mpr plain.1]
      rfl

theorem semicolon_notMem_text (segment : Segment) : ';' ∉ segment.text.toList := by
  cases segment with
  | cookie c beforeName behindName beforeValue behindValue =>
      have hblanks := notMem_blanks (c := ';') (by decide)
      simp [Segment.text, hblanks, c.name_plain.2, c.value_plain]
  | other text plain => exact plain.2

/-! ## Fields and requests -/

/-- The cookies that a request holds are read off its fields one by one. -/
theorem filterMap_pieces (segments : List Segment) :
    (Text.pieces ';' (String.intercalate ";" (segments.map Segment.text))).filterMap
        Request.cookie? =
      (segments.filterMap Segment.cookie?).map fun c => (c.name, c.value) := by
  cases segments with
  | nil => decide
  | cons segment rest =>
      have hplain : ∀ part ∈ (segment :: rest).map Segment.text, ';' ∉ part.toList := by
        intro part hpart
        obtain ⟨other, -, rfl⟩ := List.mem_map.mp hpart
        exact semicolon_notMem_text other
      rw [show (";" : String) = String.singleton ';' from rfl,
        Text.pieces_intercalate hplain (by simp), List.filterMap_map, List.map_filterMap]
      apply List.filterMap_congr
      intro other _
      rw [Function.comp_apply, cookie?_text]

theorem flatMap_getAll (lines : List Line) :
    ((Headers.ofList (lines.map Line.entry)).getAll "cookie").flatMap
        (fun field => (Text.pieces ';' field).filterMap Request.cookie?) =
      (lines.flatMap Line.written).map fun c => (c.name, c.value) := by
  induction lines with
  | nil => rfl
  | cons line rest ih =>
      simp only [Headers.getAll, Headers.ofList, List.map_cons, List.flatMap_cons,
        List.map_append] at ih ⊢
      cases line with
      | cookies name named segments =>
          rw [List.filter_cons_of_pos (by exact named), List.map_cons, List.flatMap_cons, ih]
          exact congrArg (· ++ _) (filterMap_pieces segments)
      | other name value unnamed =>
          rw [List.filter_cons_of_neg (by simp [Headers.named, Line.entry, unnamed]), ih]
          rfl

/-- However a client spreads its cookies over the fields of a request, each name stands once among
the cookies of the request, with the value of the last cookie of that name. -/
theorem cookies_written (r : Request) (lines : List Line) :
    let cookies := { r with headers := .ofList (lines.map Line.entry) }.cookies
    (cookies.map Prod.fst).Nodup ∧
      ∀ name, Assoc.get? name cookies =
        (((lines.flatMap Line.written).filter fun c => c.name = name).getLast?).map Cookie.value := by
  intro cookies
  have hcookies : cookies =
      Assoc.ofList ((lines.flatMap Line.written).map fun c => (c.name, c.value)) :=
    congrArg Assoc.ofList (flatMap_getAll lines)
  rw [hcookies]
  refine ⟨Assoc.nodup_keys_ofList _, fun name => ?_⟩
  rw [Assoc.get?_ofList, List.filter_map, List.getLast?_map, Option.map_map]
  rfl

/-- A cookie with a separator in its value. -/
def sum : Cookie where
  name := "sum"
  value := "a=b"
  name_trimmed := by decide
  value_trimmed := by decide
  name_plain := by decide
  value_plain := by decide

example : (Line.cookies "COOKIE" (by decide)
    [.other "junk" (by decide), .cookie sum ⟨" ", by simp [Text.isBlank]⟩ ⟨"", by simp⟩
      ⟨"\t", by simp [Text.isBlank]⟩ ⟨" ", by simp [Text.isBlank]⟩]).entry =
        ("COOKIE", "junk; sum=\ta=b ") := by
  decide

end Cookie
end WebApp
