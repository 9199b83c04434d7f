import Mathlib.Tactic
import WebApp.Proofs.Http.WireFormat

/-!
# Header values and the outline of a response

A client learns from the lines of a head which fields there are, how long the body is and where
it begins.  The values of fields are written as they are, so a value with the end of a line in
it writes more than one line.  The outline of a response is what it should be exactly when no
value does.
-/

namespace WebApp
namespace Client

/-- What a message tells apart from the values of its fields: the names of the fields, the values
of the length fields, and the bytes behind the head. -/
structure Outline where
  names : List Bytes
  lengths : List Bytes
  body : Bytes
deriving DecidableEq, Repr

def outline? (ending : LineEnd) (bytes : Bytes) : Option Outline :=
  (heading? ending bytes).map fun found =>
    ⟨found.1.fields.map Prod.fst, found.1.lengths, found.2⟩

variable {ending : LineEnd} {held text body rest tail : Bytes}

/-! ## Texts that are more than one line -/

/-- A text with the end of a line in it is a line and what is left of the text. -/
theorem lines_of_broken (hheld : Unbroken ending held)
    (hbroken : ¬ Unbroken ending (held ++ text)) :
    ∃ line more, more.length < text.length ∧ ∀ tail, lines ending held (text ++ tail) =
      if line = [] then some ([], more ++ tail)
      else (lines ending [] (more ++ tail)).map fun found => (line :: found.1, found.2) := by
  induction text generalizing held with
  | nil => simp [hheld] at hbroken
  | cons b text ih =>
      by_cases hend : ending.mark <:+ held ++ [b]
      · exact ⟨bare held, text, by simp, fun tail => by simp [lines, hend]⟩
      · obtain ⟨line, more, hless, hlines⟩ := ih (hheld.concat hend) (by simpa using hbroken)
        refine ⟨line, more, Nat.lt_succ_of_lt hless, fun tail => ?_⟩
        rw [List.cons_append, lines, if_neg hend, hlines]

/-- A text with its end is at least one line, and exactly one only if no line ends inside it,
unless the head ends with it. -/
theorem lines_ended_or {texts : List Bytes}
    (hlines : lines ending [] (ended text ++ tail) = some (texts, rest)) :
    tail.length ≤ rest.length ∨
      ∃ front more, texts = front ++ more ∧ lines ending [] tail = some (more, rest) ∧
        1 ≤ front.length ∧ (front.length = 1 → Unbroken ending text) := by
  induction hlength : text.length using Nat.strong_induction_on generalizing text texts with
  | _ length ih =>
    by_cases hunbroken : Unbroken ending text
    · rw [lines_ended hunbroken] at hlines
      by_cases hempty : text = []
      · simp only [if_pos hempty, Option.some.injEq, Prod.mk.injEq] at hlines
        exact .inl (hlines.2 ▸ le_rfl)
      · simp only [if_neg hempty, Option.map_eq_some_iff, Prod.mk.injEq] at hlines
        obtain ⟨⟨more, left⟩, hmore, rfl, rfl⟩ := hlines
        exact .inr ⟨[text], more, rfl, hmore, le_rfl, fun _ => hunbroken⟩
    · obtain ⟨line, more, hless, hsplit⟩ :=
        lines_of_broken unbroken_nil (by simpa using hunbroken)
      rw [ended, List.append_assoc, hsplit] at hlines
      by_cases hempty : line = []
      · simp only [if_pos hempty, Option.some.injEq, Prod.mk.injEq] at hlines
        left
        rw [← hlines.2, List.length_append, List.length_append]
        omega
      · simp only [if_neg hempty, Option.map_eq_some_iff, Prod.mk.injEq] at hlines
        obtain ⟨⟨found, left⟩, hfound, rfl, rfl⟩ := hlines
        have hrest : lines ending [] (ended more ++ tail) = some (found, left) := by
          simpa [ended] using hfound
        rcases ih more.length (hlength ▸ hless) hrest rfl with
          hearly | ⟨front, others, rfl, hothers, hfront, -⟩
        · exact .inl hearly
        · refine .inr ⟨line :: front, others, rfl, hothers, by simp, ?_⟩
          rw [List.length_cons]
          omega

/-- Texts with their ends are at least as many lines, unless the head ends too early, and exactly
as many only if no line ends inside one of them. -/
theorem lines_flatMap_ended_or {texts found : List Bytes}
    (hlines : lines ending [] (texts.flatMap ended ++ ended [] ++ body) = some (found, rest)) :
    body.length < rest.length ∨
      texts.length ≤ found.length ∧
        (found.length = texts.length → ∀ text ∈ texts, Unbroken ending text) := by
  induction texts generalizing found with
  | nil => simp
  | cons text texts ih =>
      rw [List.flatMap_cons, List.append_assoc, List.append_assoc] at hlines
      rcases lines_ended_or hlines with hearly | ⟨front, more, rfl, hmore, hfront, hone⟩
      · left
        simp only [ended, List.length_append, List.length_cons, List.length_nil] at hearly
        omega
      · rcases ih (by simpa using hmore) with hearly | ⟨hle, hall⟩
        · exact .inl hearly
        · rw [List.length_append, List.length_cons]
          refine .inr ⟨by omega, fun hcount => ?_⟩
          exact List.forall_mem_cons.mpr ⟨hone (by omega), hall (by omega)⟩

/-! ## Outlines that are what they should be -/

/-- Where the names that are read are those that were written, and the body begins where it
should, each field was read from a line of its own. -/
theorem of_outline? {heading : Heading} {lengths : List Bytes}
    (houtline : outline? ending (heading.bytes ++ body) =
      some ⟨heading.fields.map Prod.fst, lengths, body⟩) : heading.Readable ending := by
  simp only [outline?, heading?, Option.map_eq_some_iff, Option.bind_eq_some_iff,
    Outline.mk.injEq] at houtline
  obtain ⟨_, ⟨⟨texts, left⟩, hlines, read, hread, rfl⟩, hnames, -, rfl⟩ := houtline
  cases texts with
  | nil => simp [Heading.ofTexts?] at hread
  | cons first more =>
      by_cases hversion : Heading.version <+: first
      · simp only [Heading.ofTexts?, if_pos hversion, Option.map_eq_some_iff] at hread
        obtain ⟨fields, hfields, rfl⟩ := hread
        have hcount : (first :: more).length = heading.texts.length := by
          have hlength := congrArg List.length hnames
          simp only [List.length_map, length_of_mapM_field? hfields] at hlength
          simp [Heading.texts, hlength]
        rcases lines_flatMap_ended_or hlines with hearly | ⟨-, hall⟩
        · exact absurd hearly (lt_irrefl _)
        · have hunbroken := hall hcount
          refine ⟨unbroken_version_append_iff.mp (hunbroken _ (by simp [Heading.texts])), ?_⟩
          intro field hfield
          obtain ⟨other, hother, hname⟩ := List.mem_map.mp
            (hnames ▸ List.mem_map_of_mem hfield : field.1 ∈ fields.map Prod.fst)
          have hnamed := ((of_mapM_field? hfields).1 other hother).1
          have hline := unbroken_fieldText_iff.mp (hunbroken (fieldText field)
            (List.mem_cons_of_mem _ (List.mem_map_of_mem hfield)))
          exact ⟨by rwa [Named, hname] at hnamed, hline.1, hline.2⟩
      · simp [Heading.ofTexts?, hversion] at hread

theorem outline?_bytes_iff {heading : Heading} :
    outline? ending (heading.bytes ++ body) =
      some ⟨heading.fields.map Prod.fst, heading.lengths, body⟩ ↔ heading.Readable ending := by
  constructor
  · exact of_outline?
  · intro hreadable
    rw [outline?, heading?_bytes hreadable, Option.map_some]

end Client

/-! ## Responses that differ in values -/

/-- Fields with the same names in the same order. -/
def SameNames (fields fields' : List (String × String)) : Prop :=
  fields'.map Prod.fst = fields.map Prod.fst

namespace SameNames

variable {fields fields' more more' : List (String × String)}

theorem append (hfields : SameNames fields fields') (hmore : SameNames more more') :
    SameNames (fields ++ more) (fields' ++ more') := by
  simp only [SameNames, List.map_append] at *
  rw [hfields, hmore]

theorem filter (hfields : SameNames fields fields') (p : String → Bool) :
    SameNames (fields.filter fun field => p field.1) (fields'.filter fun field => p field.1) := by
  have hfilter : ∀ fields : List (String × String),
      (fields.filter fun field => p field.1).map Prod.fst = (fields.map Prod.fst).filter p := by
    intro fields
    rw [List.filter_map]
    rfl
  rw [SameNames, hfilter, hfilter, hfields]

theorem forall_mem_iff (hfields : SameNames fields fields') (p : String → Prop) :
    (∀ field ∈ fields', p field.1) ↔ ∀ field ∈ fields, p field.1 := by
  have hnames : ∀ fields : List (String × String),
      (∀ field ∈ fields, p field.1) ↔ ∀ name ∈ fields.map Prod.fst, p name := by
    intro fields
    rw [List.forall_mem_map]
  rw [hnames, hnames, hfields]

theorem setEntries (hfields : SameNames fields fields') (name value : String) :
    SameNames (Headers.setEntries name value fields) (Headers.setEntries name value fields') := by
  induction fields generalizing fields' with
  | nil =>
      obtain rfl : fields' = [] := by simpa [SameNames] using hfields
      rfl
  | cons field fields ih =>
      cases fields' with
      | nil => simp [SameNames] at hfields
      | cons field' fields' =>
          simp only [SameNames, List.map_cons, List.cons.injEq] at hfields
          obtain ⟨hname, hrest⟩ := hfields
          have hsame : Headers.named name field' = Headers.named name field := by
            simp only [Headers.named, hname]
          by_cases hnamed : Headers.named name field = true
          · have hfilter := SameNames.filter hrest fun other => !Text.sameFolded other name
            simp only [Headers.setEntries, hsame, if_pos hnamed, SameNames, List.map_cons, hname]
            exact congrArg _ hfilter
          · simp only [Headers.setEntries, hsame, if_neg hnamed, SameNames, List.map_cons, hname]
            exact congrArg _ (ih hrest)

end SameNames

namespace Response

/-- Responses that differ in nothing but the values of their fields. -/
structure SameButValues (r r' : Response) : Prop where
  status : r'.status = r.status
  names : SameNames r.headers.entries r'.headers.entries
  body : r'.body = r.body
  keepAlive : r'.keepAlive = r.keepAlive

/-- What a client is to see of a response apart from the values of its fields. -/
def outline (r : Response) : Client.Outline where
  names := r.sentFields.map fun field => Utf8.encode field.1
  lengths := [Utf8.encode (toString r.body.length)]
  body := r.body

/-- No line ends inside a value that is written. -/
def Unsplit (ending : Client.LineEnd) (r : Response) : Prop :=
  ∀ field ∈ r.headers.entries, Headers.named "content-length" field = false →
    Headers.named "connection" field = false → Client.Unbroken ending (Utf8.encode field.2)

variable {ending : Client.LineEnd} {r r' : Response}

theorem SameButValues.textType_eq (hsame : SameButValues r r') : r'.textType = r.textType := by
  have htyped : (∀ field ∈ r'.headers.entries, Headers.named "content-type" field = false) ↔
      ∀ field ∈ r.headers.entries, Headers.named "content-type" field = false :=
    hsame.names.forall_mem_iff fun name => Text.sameFolded name "content-type" = false
  simp only [textType, hsame.body, htyped]

theorem SameButValues.sentFields (hsame : SameButValues r r') :
    SameNames r.sentFields r'.sentFields := by
  have hconnection : r'.connection = r.connection := by
    simp only [connection, hsame.keepAlive]
  have htyped : SameNames (r.headers.entries ++ r.textType) (r'.headers.entries ++ r'.textType) :=
    hsame.names.append (congrArg _ hsame.textType_eq)
  have hwire : SameNames r.wireHeaders.entries r'.wireHeaders.entries := by
    rw [entries_wireHeaders, entries_wireHeaders, hconnection]
    exact (htyped.setEntries "Connection" _).filter fun name =>
      !Text.sameFolded name "content-length"
  simp only [Response.sentFields, hsame.body]
  exact hwire.append rfl

theorem SameButValues.outline_eq (hsame : SameButValues r r') : r'.outline = r.outline := by
  have hnames := congrArg (List.map Utf8.encode) hsame.sentFields
  simp only [List.map_map] at hnames
  simp only [outline, hsame.body, Client.Outline.mk.injEq, and_true]
  exact hnames

theorem outline?_wire_iff (r : Response) :
    Client.outline? ending r.wire = some r.outline ↔ r.Readable ending := by
  have houtline : r.outline = ⟨r.heading.fields.map Prod.fst, r.heading.lengths, r.body⟩ := by
    rw [r.lengths_heading, heading, List.map_map]
    rfl
  rw [houtline, r.wire_eq, Client.outline?_bytes_iff, readable_heading_iff]

/-- Where the names are names of fields, the values alone decide. -/
theorem SameButValues.readable_iff (hsame : SameButValues r r') (hreadable : r.Readable ending) :
    r'.Readable ending ↔ r'.Unsplit ending := by
  constructor
  · intro hother field hfield hlength hconnection
    exact (hother field hfield hlength hconnection).value
  · intro hunsplit field hfield hlength hconnection
    obtain ⟨own, hown, hname⟩ : ∃ own ∈ r.headers.entries, own.1 = field.1 :=
      List.mem_map.mp (hsame.names ▸ List.mem_map_of_mem hfield)
    have hline := hreadable own hown (by simpa [Headers.named, hname] using hlength)
      (by simpa [Headers.named, hname] using hconnection)
    have hnamed := hline.named
    have hunbroken := hline.name
    simp only [Client.Named, fieldBytes, hname] at hnamed hunbroken
    exact ⟨hnamed, hunbroken, hunsplit field hfield hlength hconnection⟩

/-- Values change what a client learns of the fields, of the length and of the body exactly when
a line ends inside one of them. -/
theorem outline?_wire_eq_iff_unsplit (ending : Client.LineEnd) (r r' : Response)
    (hsame : SameButValues r r') :
    (Client.outline? ending r.wire = some r.outline ↔ r.Readable ending) ∧
    r'.outline = r.outline ∧
    (r.Readable ending →
      (Client.outline? ending r'.wire = Client.outline? ending r.wire ↔ r'.Unsplit ending)) := by
  refine ⟨r.outline?_wire_iff, hsame.outline_eq, ?_⟩
  intro hreadable
  rw [r.outline?_wire_iff.mpr hreadable, ← hsame.outline_eq, r'.outline?_wire_iff]
  exact hsame.readable_iff hreadable

/-- The response of a redirect. -/
def redirectTo (location : String) : Response :=
  (Response.new .found).withHeader "Location" location

/-- A location with the end of a line in it is told from one without. -/
theorem outline?_wire_redirects :
    SameButValues (redirectTo "/next") (redirectTo "/next\r\nSet-Cookie: a=b") ∧
    (redirectTo "/next").Readable .strict ∧
    ¬ (redirectTo "/next\r\nSet-Cookie: a=b").Unsplit .strict ∧
    Client.outline? .strict (redirectTo "/next\r\nSet-Cookie: a=b").wire ≠
      Client.outline? .strict (redirectTo "/next").wire := by
  have hsame : SameButValues (redirectTo "/next") (redirectTo "/next\r\nSet-Cookie: a=b") :=
    ⟨rfl, rfl, rfl, rfl⟩
  have hreadable : (redirectTo "/next").Readable .strict := by
    intro field hfield _ _
    obtain rfl : field = ("Location", "/next") := by
      simpa [redirectTo, withHeader, Headers.insert, Response.new] using hfield
    exact PlainField.readable (by decide) .strict
  have hbroken : ¬ (redirectTo "/next\r\nSet-Cookie: a=b").Unsplit .strict := by
    intro hunsplit
    have hvalue := hunsplit ("Location", "/next\r\nSet-Cookie: a=b") (by decide) (by decide)
      (by decide)
    exact absurd hvalue (by decide +kernel)
  obtain ⟨-, -, hvalues⟩ := outline?_wire_eq_iff_unsplit .strict _ _ hsame
  exact ⟨hsame, hreadable, hbroken, fun houtline => hbroken ((hvalues hreadable).mp houtline)⟩

/-- The second location writes a length field of its own and an empty line, and its client takes
the rest of the head for the body. -/
theorem outline?_wire_split :
    ¬ ∀ r r' : Response, SameButValues r r' →
      Client.outline? .strict r'.wire = Client.outline? .strict r.wire := by
  intro hall
  have houtline := hall (redirectTo "/next") (redirectTo "/next\r\nContent-Length: 4\r\n\r\n")
    ⟨rfl, rfl, rfl, rfl⟩
  exact absurd houtline (by decide +kernel)

end Response
end WebApp
