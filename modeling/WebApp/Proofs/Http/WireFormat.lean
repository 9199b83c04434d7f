import Mathlib.Tactic
import WebApp.Proofs.Http.Client

/-!
# The wire format of responses

The bytes of a response are the bytes of a heading and the body behind them.  The heading holds
the fields of the response in order, with one connection field and one length field.  So the
responses that were written one behind the other are read back from their bytes.
-/

namespace WebApp

/-- A field as bytes. -/
def fieldBytes (field : String × String) : Bytes × Bytes :=
  (Utf8.encode field.1, Utf8.encode field.2)

theorem fieldBytes_injective : Function.Injective fieldBytes := by
  rintro ⟨name, value⟩ ⟨name', value'⟩ hbytes
  simp only [fieldBytes, Prod.mk.injEq] at hbytes
  rw [Utf8.encode_injective hbytes.1, Utf8.encode_injective hbytes.2]

theorem Headers.encode_text (h : Headers) :
    Utf8.encode h.text =
      (h.entries.map fun field => Client.fieldText (fieldBytes field)).flatMap Client.ended := by
  have hblank : Utf8.encode ": " = [58, 32] := by decide +kernel
  have hend : Utf8.encode "\r\n" = [13, 10] := by decide +kernel
  simp only [text, Utf8.encode_join, List.flatMap_map]
  congr 1
  funext field
  simp [Client.ended, Client.fieldText, fieldBytes, Utf8.encode_append, hblank, hend]

/-- The fields with one connection field of this value: the first that is there, or a new one
at the end. -/
inductive Connected (value : String) : List (String × String) → List (String × String) → Prop
  | replaced (before : List (String × String)) (spelling old : String)
      (after : List (String × String))
      (hbefore : ∀ field ∈ before, Headers.named "connection" field = false)
      (hnamed : Text.sameFolded spelling "connection" = true) :
      Connected value (before ++ (spelling, old) :: after)
        (before ++ (spelling, value) ::
          after.filter fun field => !Headers.named "connection" field)
  | added (fields : List (String × String))
      (hnone : ∀ field ∈ fields, Headers.named "connection" field = false) :
      Connected value fields (fields ++ [("Connection", value)])

namespace Response

/-- The content type of a body whose type is not given. -/
def textType (r : Response) : List (String × String) :=
  if r.body ≠ [] ∧ ∀ field ∈ r.headers.entries, Headers.named "content-type" field = false then
    [("Content-Type", "text/plain; charset=utf-8")]
  else []

/-- The fields on the wire, the length of the body as the last. -/
def sentFields (r : Response) : List (String × String) :=
  r.wireHeaders.entries ++ [("Content-Length", toString r.body.length)]

def heading (r : Response) : Client.Heading :=
  ⟨Utf8.encode r.status.text, r.sentFields.map fieldBytes⟩

/-- The response as it is read. -/
def answer (r : Response) : Client.Answer := ⟨r.heading, r.body⟩

theorem wire_eq (r : Response) : r.wire = r.heading.bytes ++ r.body := by
  have hend : Utf8.encode "\r\n" = [13, 10] := by decide +kernel
  have hlast : Utf8.encode "\r\n\r\n" = [13, 10] ++ [13, 10] := by decide +kernel
  have hlength : Utf8.encode "Content-Length: " = Utf8.encode "Content-Length" ++ [58, 32] := by
    decide +kernel
  simp only [wire, heading, sentFields, Client.Heading.bytes, Client.Heading.texts,
    Client.Heading.version, Utf8.encode_append, Headers.encode_text, List.map_append, List.map_map,
    List.flatMap_append, List.flatMap_cons, List.map_cons, List.map_nil, List.flatMap_nil,
    hend, hlast, hlength]
  simp [Client.ended, Client.fieldText, fieldBytes, Function.comp_def]

end Response

/-! ## The fields that are sent -/

theorem named_connection (field : String × String) :
    Headers.named "Connection" field = Headers.named "connection" field := by
  have hfold : Text.fold "Connection" = Text.fold "connection" := by decide
  simp [Headers.named, Text.sameFolded, hfold]

theorem named_own (value : String) :
    Headers.named "connection" ("Connection", value) = true := by
  rw [← named_connection]
  exact Text.sameFolded_self "Connection"

/-- No name is both that of the connection field and that of the length field. -/
theorem named_length_of_connection {field : String × String}
    (hnamed : Headers.named "connection" field = true) :
    Headers.named "content-length" field = false := by
  have hfold : Text.fold field.1 = Text.fold "connection" := by
    simpa [Headers.named, Text.sameFolded] using hnamed
  have hother : Text.fold "connection" ≠ Text.fold "content-length" := by decide
  simp [Headers.named, Text.sameFolded, hfold, hother]

theorem connected_setEntries (value : String) (fields : List (String × String)) :
    Connected value fields (Headers.setEntries "Connection" value fields) := by
  induction fields with
  | nil => exact .added [] (by simp)
  | cons field fields ih =>
      by_cases hnamed : Headers.named "connection" field = true
      · have hset : Connected value _ _ :=
          .replaced [] field.1 field.2 fields (by simp) hnamed
        simpa [Headers.setEntries, named_connection, hnamed] using hset
      · rw [Headers.setEntries, named_connection, if_neg hnamed]
        have hfield := Bool.eq_false_of_not_eq_true hnamed
        generalize Headers.setEntries "Connection" value fields = result at ih
        cases ih with
        | replaced before spelling old after hbefore hspelling =>
            exact .replaced (field :: before) spelling old after
              (List.forall_mem_cons.mpr ⟨hfield, hbefore⟩) hspelling
        | added _ hnone =>
            exact .added (field :: fields) (List.forall_mem_cons.mpr ⟨hfield, hnone⟩)

namespace Connected

variable {value : String} {fields result : List (String × String)}

/-- Fields of the length do not stand in the way. -/
theorem withoutLengths (hconnected : Connected value fields result) :
    Connected value (fields.filter fun field => !Headers.named "content-length" field)
      (result.filter fun field => !Headers.named "content-length" field) := by
  cases hconnected with
  | replaced before spelling old after hbefore hspelling =>
      have hkeep : ∀ text : String, Headers.named "content-length" (spelling, text) = false :=
        fun text => named_length_of_connection hspelling
      have hset : Connected value _ _ := .replaced
        (before.filter fun field => !Headers.named "content-length" field) spelling old
        (after.filter fun field => !Headers.named "content-length" field)
        (fun field hfield => hbefore field (List.mem_of_mem_filter hfield)) hspelling
      simpa [List.filter_append, List.filter_cons, hkeep, List.filter_filter, Bool.and_comm]
        using hset
  | added _ hnone =>
      have hset : Connected value _ _ := .added
        (fields.filter fun field => !Headers.named "content-length" field)
        (fun field hfield => hnone field (List.mem_of_mem_filter hfield))
      have hkeep : Headers.named "content-length" ("Connection", value) = false :=
        named_length_of_connection (named_own value)
      simpa [List.filter_append, hkeep] using hset

theorem values_eq (hconnected : Connected value fields result) :
    (result.filter (Headers.named "connection")).map Prod.snd = [value] := by
  have hnone : ∀ other : List (String × String),
      (∀ field ∈ other, Headers.named "connection" field = false) →
      other.filter (Headers.named "connection") = [] := by
    intro other hother
    exact List.filter_eq_nil_iff.mpr fun field hfield => by simp [hother field hfield]
  cases hconnected with
  | replaced before spelling old after hbefore hspelling =>
      have hnamed : Headers.named "connection" (spelling, value) = true := hspelling
      simp [List.filter_append, hnone before hbefore, hnamed, List.filter_filter]
  | added _ hfields =>
      simp [List.filter_append, hnone fields hfields, named_own]

theorem mem_or (hconnected : Connected value fields result) {field : String × String}
    (hfield : field ∈ result) :
    field ∈ fields ∧ Headers.named "connection" field = false ∨
      Headers.named "connection" field = true ∧ field.2 = value := by
  cases hconnected with
  | replaced before spelling old after hbefore hspelling =>
      rcases List.mem_append.mp hfield with hmem | hmem
      · exact .inl ⟨by simp [hmem], hbefore field hmem⟩
      · rcases List.mem_cons.mp hmem with rfl | hmem
        · exact .inr ⟨hspelling, rfl⟩
        · obtain ⟨hmem, hother⟩ := List.mem_filter.mp hmem
          exact .inl ⟨by simp [hmem], by simpa using hother⟩
  | added _ hnone =>
      rcases List.mem_append.mp hfield with hmem | hmem
      · exact .inl ⟨hmem, hnone field hmem⟩
      · obtain rfl := List.mem_singleton.mp hmem
        exact .inr ⟨named_own value, rfl⟩

theorem mem_of_mem (hconnected : Connected value fields result) {field : String × String}
    (hfield : field ∈ fields) (hother : Headers.named "connection" field = false) :
    field ∈ result := by
  cases hconnected with
  | replaced before spelling old after hbefore hspelling =>
      rcases List.mem_append.mp hfield with hmem | hmem
      · simp [hmem]
      · rcases List.mem_cons.mp hmem with rfl | hmem
        · have hnamed : Headers.named "connection" (spelling, old) = true := hspelling
          rw [hnamed] at hother
          contradiction
        · simp [hmem, hother]
  | added _ hnone => simp [hfield]

end Connected

namespace Response

theorem entries_wireHeaders (r : Response) :
    r.wireHeaders.entries =
      (Headers.setEntries "Connection" r.connection (r.headers.entries ++ r.textType)).filter
        fun field => !Headers.named "content-length" field := by
  have hcontains : r.headers.contains "content-type" = false ↔
      ∀ field ∈ r.headers.entries, Headers.named "content-type" field = false := by
    simp [Headers.contains]
  by_cases hadd : r.body ≠ [] ∧
      ∀ field ∈ r.headers.entries, Headers.named "content-type" field = false
  · have hif : (!r.body.isEmpty && !r.headers.contains "content-type") = true := by
      simpa [hcontains] using hadd
    rw [textType, if_pos hadd, wireHeaders, hif]
    rfl
  · have hif : (!r.body.isEmpty && !r.headers.contains "content-type") = false := by
      rw [Bool.eq_false_iff]
      intro htrue
      apply hadd
      simpa [hcontains] using htrue
    rw [textType, if_neg hadd, wireHeaders, hif, List.append_nil]
    rfl

theorem connected_wireHeaders (r : Response) :
    Connected r.connection
      ((r.headers.entries.filter fun field => !Headers.named "content-length" field) ++ r.textType)
      r.wireHeaders.entries := by
  have hkept : (r.textType.filter fun field => !Headers.named "content-length" field) =
      r.textType := by
    unfold textType
    split <;> decide
  have hset := (connected_setEntries r.connection
    (r.headers.entries ++ r.textType)).withoutLengths
  rwa [← entries_wireHeaders, List.filter_append, hkept] at hset

/-- The fields that a client is to see of a response. -/
structure Sends (r : Response) (fields : List (String × String)) : Prop where
  /-- The fields of the response but for those of the length, and a content type for a body that
  has none, with the one connection field among them and the length of the body behind them. -/
  composed : ∃ connected,
    Connected r.connection
      ((r.headers.entries.filter fun field => !Headers.named "content-length" field) ++ r.textType)
      connected ∧
    fields = connected ++ [("Content-Length", toString r.body.length)]
  connection : (fields.filter (Headers.named "connection")).map Prod.snd = [r.connection]
  length : fields.filter (Headers.named "content-length") =
    [("Content-Length", toString r.body.length)]

theorem sends_sentFields (r : Response) : r.Sends r.sentFields := by
  have hlength : ∀ value : String, Headers.named "content-length" ("Content-Length", value) =
      true := by
    intro value
    have hfold : Text.fold "Content-Length" = Text.fold "content-length" := by decide
    simp [Headers.named, Text.sameFolded, hfold]
  constructor
  · exact ⟨r.wireHeaders.entries, r.connected_wireHeaders, rfl⟩
  · have hother : ∀ value : String,
        Headers.named "connection" ("Content-Length", value) = false := by
      intro value
      rw [Bool.eq_false_iff]
      intro hnamed
      have hlength := hlength value
      rw [named_length_of_connection hnamed] at hlength
      contradiction
    simp [sentFields, List.filter_append, hother, r.connected_wireHeaders.values_eq]
  · have hnone : r.wireHeaders.entries.filter (Headers.named "content-length") = [] := by
      simp [wireHeaders, Headers.remove]
    simp [sentFields, List.filter_append, hnone, hlength]

/-! ## Reading the fields back -/

theorem isLength_fieldBytes (field : String × String) :
    Client.isLength (fieldBytes field) = Headers.named "content-length" field := by
  simp [Client.isLength, fieldBytes, Utf8.decode?_encode, Headers.named]

theorem lengths_heading (r : Response) :
    r.heading.lengths = [Utf8.encode (toString r.body.length)] := by
  have hfilter : (r.sentFields.map fieldBytes).filter Client.isLength =
      (r.sentFields.filter (Headers.named "content-length")).map fieldBytes := by
    rw [List.filter_map]
    congr 2
    funext field
    exact isLength_fieldBytes field
  simp [Client.Heading.lengths, heading, hfilter, r.sends_sentFields.length, fieldBytes]

theorem length?_heading (r : Response) : r.heading.length? = some r.body.length := by
  simp [Client.Heading.length?, lengths_heading, Utf8.decode?_encode, Text.decimal?_repr]

theorem code?_heading (r : Response) : r.heading.code? = some r.status.code := by
  simp only [Client.Heading.code?, heading]
  cases r.status <;> decide +kernel

end Response

/-! ## Responses that are read back -/

/-- A field that keeps to the grammar of fields: its name is not empty and without colons, and
neither name nor value holds a byte of a line end. -/
structure PlainField (field : String × String) : Prop where
  name_ne : field.1 ≠ ""
  name : ∀ c ∈ field.1.toList, c ≠ ':' ∧ c ≠ '\r' ∧ c ≠ '\n'
  value : ∀ c ∈ field.2.toList, c ≠ '\r' ∧ c ≠ '\n'

-- By the characters of the field, not by all characters that there are.
instance (field : String × String) : Decidable (PlainField field) :=
  decidable_of_iff
    (field.1 ≠ "" ∧ (field.1.toList.all fun c => c ≠ ':' ∧ c ≠ '\r' ∧ c ≠ '\n') ∧
      field.2.toList.all fun c => c ≠ '\r' ∧ c ≠ '\n')
    (by
      simp only [List.all_eq_true, decide_eq_true_eq]
      exact ⟨fun h => ⟨h.1, h.2.1, h.2.2⟩, fun h => ⟨h.name_ne, h.name, h.value⟩⟩)

theorem PlainField.readable {field : String × String} (hplain : PlainField field)
    (ending : Client.LineEnd) : Client.Readable ending (fieldBytes field) := by
  refine ⟨⟨Utf8.encode_ne_nil hplain.name_ne, ?_⟩, ?_, ?_⟩
  · exact Utf8.notMem_encode (by decide) fun c hc => (hplain.name c hc).1
  · exact Client.unbroken_of_notMem
      (Utf8.notMem_encode (by decide) fun c hc => (hplain.name c hc).2.2)
  · exact Client.unbroken_of_notMem
      (Utf8.notMem_encode (by decide) fun c hc => (hplain.value c hc).2)

theorem Status.ofCode?_code (status : Status) : Status.ofCode? status.code = some status := by
  cases status <;> rfl

theorem Status.code_injective : Function.Injective Status.code := by
  intro first second heq
  simpa [Status.ofCode?_code] using congrArg Status.ofCode? heq

namespace Response

variable {ending : Client.LineEnd} {r : Response}

/-- The connection field is plain whatever its spelling. -/
theorem plainField_connection (r : Response) {spelling : String}
    (hnamed : Text.sameFolded spelling "connection" = true) :
    PlainField (spelling, r.connection) := by
  constructor
  · rintro rfl
    exact absurd hnamed (by decide)
  · intro c hc
    have hlower := Text.toLower_mem_of_sameFolded hnamed hc
    refine ⟨?_, ?_, ?_⟩ <;>
    · rintro rfl
      exact absurd hlower (by decide)
  · have hown : PlainField ("Connection", r.connection) := by
      unfold connection
      split <;> decide
    exact hown.value

theorem plainField_textType (r : Response) : ∀ field ∈ r.textType, PlainField field := by
  intro field hfield
  unfold textType at hfield
  split at hfield
  · obtain rfl := List.mem_singleton.mp hfield
    decide
  · simp at hfield

theorem plainField_length (length : Nat) : PlainField ("Content-Length", toString length) := by
  have hname : PlainField ("Content-Length", "") := by decide
  refine ⟨hname.name_ne, hname.name, ?_⟩
  intro c hc
  have hdigit : c.isDigit = true := by
    rw [Nat.toString_eq_ofList_toDigits, String.toList_ofList] at hc
    exact Nat.isDigit_of_mem_toDigits (by norm_num) (by norm_num) hc
  constructor <;>
  · rintro rfl
    exact absurd hdigit (by decide)

/-- A client reads each field of the response's own as this field. -/
def Readable (ending : Client.LineEnd) (r : Response) : Prop :=
  ∀ field ∈ r.headers.entries, Headers.named "content-length" field = false →
    Headers.named "connection" field = false → Client.Readable ending (fieldBytes field)

theorem Readable.sentFields (hreadable : r.Readable ending) :
    ∀ field ∈ r.sentFields, Client.Readable ending (fieldBytes field) := by
  intro field hsent
  rcases List.mem_append.mp hsent with hmem | hmem
  · rcases r.connected_wireHeaders.mem_or hmem with ⟨hmem, hother⟩ | ⟨hnamed, hvalue⟩
    · rcases List.mem_append.mp hmem with hmem | hmem
      · obtain ⟨hmem, hlength⟩ := List.mem_filter.mp hmem
        exact hreadable field hmem (by simpa using hlength) hother
      · exact (r.plainField_textType field hmem).readable ending
    · obtain ⟨spelling, value⟩ := field
      obtain rfl : value = r.connection := hvalue
      exact (r.plainField_connection hnamed).readable ending
  · obtain rfl := List.mem_singleton.mp hmem
    exact (plainField_length r.body.length).readable ending

theorem readable_heading_iff : r.heading.Readable ending ↔ r.Readable ending := by
  constructor
  · intro hheading field hfield hlength hconnection
    have hkept : field ∈ (r.headers.entries.filter fun field =>
        !Headers.named "content-length" field) ++ r.textType := by
      simp [hfield, hlength]
    have hsent := r.connected_wireHeaders.mem_of_mem hkept hconnection
    exact hheading.fields _ (List.mem_map_of_mem (by simp [Response.sentFields, hsent]))
  · intro hreadable
    constructor
    · apply Client.unbroken_of_notMem
      simp only [heading]
      cases r.status <;> decide +kernel
    · intro bytes hbytes
      obtain ⟨field, hsent, rfl⟩ := List.mem_map.mp hbytes
      exact hreadable.sentFields field hsent

/-- A response is read from its bytes, whatever follows. -/
theorem answer?_wire (hreadable : r.Readable ending) {hasBody : Nat → Bool}
    (hbody : hasBody r.status.code = true ∨ r.body = []) (rest : Bytes) :
    Client.answer? ending hasBody (r.wire ++ rest) = some (r.answer, rest) := by
  rw [r.wire_eq]
  exact Client.answer?_bytes (readable_heading_iff.mpr hreadable) r.code?_heading r.length?_heading
    rest hbody

theorem answers?_flatMap_wire {responses : List Response}
    (hreadable : ∀ r ∈ responses, r.Readable ending) :
    Client.answers? ending (responses.flatMap wire) = some (responses.map answer) := by
  induction responses with
  | nil => simp [Client.answers?]
  | cons r responses ih =>
      have hfirst : Client.answer? ending (fun _ => true) (r.wire ++ responses.flatMap wire) =
          some (r.answer, responses.flatMap wire) :=
        answer?_wire (hreadable r (by simp)) (.inl rfl) _
      have hrest := ih fun other hother => hreadable other (by simp [hother])
      rw [List.flatMap_cons, Client.answers?_of_answer? hfirst, hrest]
      rfl

theorem eq_of_answer_eq {first second : Response} (heq : first.answer = second.answer) :
    first.status = second.status ∧ first.sentFields = second.sentFields ∧
      first.body = second.body := by
  have hcode : some first.status.code = some second.status.code := by
    rw [← first.code?_heading, ← second.code?_heading]
    exact congrArg (fun answer => answer.heading.code?) heq
  have hfields : first.sentFields.map fieldBytes = second.sentFields.map fieldBytes :=
    congrArg (fun answer => answer.heading.fields) heq
  exact ⟨Status.code_injective (Option.some.inj hcode),
    List.map_injective_iff.mpr fieldBytes_injective hfields, congrArg Client.Answer.body heq⟩

/-- Responses written one behind the other are read back, and no others have the same bytes. -/
theorem answers?_wires (ending : Client.LineEnd) (responses : List Response)
    (hplain : ∀ r ∈ responses, ∀ field ∈ r.headers.entries, PlainField field) :
    Client.answers? ending (responses.flatMap wire) = some (responses.map answer) ∧
    (∀ r ∈ responses, r.answer.heading.code? = some r.status.code ∧ r.answer.body = r.body ∧
      ∃ fields, r.Sends fields ∧ r.answer.heading.fields = fields.map fieldBytes) ∧
    ∀ others : List Response,
      (∀ r ∈ others, ∀ field ∈ r.headers.entries, PlainField field) →
      others.flatMap wire = responses.flatMap wire →
      others.map (fun r => (r.status, r.sentFields, r.body)) =
        responses.map fun r => (r.status, r.sentFields, r.body) := by
  have hread : ∀ list : List Response,
      (∀ r ∈ list, ∀ field ∈ r.headers.entries, PlainField field) →
      Client.answers? ending (list.flatMap wire) = some (list.map answer) := by
    intro list hlist
    apply answers?_flatMap_wire
    intro r hr field hfield _ _
    exact (hlist r hr field hfield).readable ending
  refine ⟨hread responses hplain, ?_, ?_⟩
  · intro r _
    exact ⟨r.code?_heading, rfl, r.sentFields, r.sends_sentFields, rfl⟩
  · intro others hothers hbytes
    have hanswers : others.map answer = responses.map answer := by
      apply Option.some.inj
      rw [← hread others hothers, ← hread responses hplain, hbytes]
    have hseen : Function.FactorsThrough (fun r : Response => (r.status, r.sentFields, r.body))
        answer := by
      intro first second heq
      obtain ⟨hstatus, hfields, hbody⟩ := eq_of_answer_eq heq
      simp only [hstatus, hfields, hbody]
    rw [← hseen.extend_comp fun _ => default, ← List.map_map, hanswers, List.map_map]

/-- A response with two connection fields, a wrong length and a body that looks like a
response. -/
def lookalike : Response where
  status := .ok
  headers := ⟨[("content-length", "999"), ("CONNECTION", "upgrade"), ("X-Trace", "1"),
    ("connection", "x")]⟩
  body := Utf8.encode "\r\n\r\nHTTP/1.1 200 OK\r\n\r\n"
  keepAlive := false

/-- A body that looks like a response is read as a body, and the response behind it as the
second one. -/
theorem answers?_lookalike_first :
    (∀ r ∈ [lookalike, Response.new .noContent], ∀ field ∈ r.headers.entries, PlainField field) ∧
    Client.answers? .lenient (lookalike.wire ++ (Response.new .noContent).wire) =
      some [lookalike.answer, (Response.new .noContent).answer] ∧
    lookalike.answer.heading.fields =
      [("CONNECTION", "close"), ("X-Trace", "1"), ("Content-Type", "text/plain; charset=utf-8"),
        ("Content-Length", "23")].map fieldBytes := by
  have hplain : ∀ r ∈ [lookalike, Response.new .noContent], ∀ field ∈ r.headers.entries,
      PlainField field := by decide +kernel
  obtain ⟨hread, -, -⟩ := answers?_wires .lenient [lookalike, Response.new .noContent] hplain
  exact ⟨hplain, by simpa using hread, by decide +kernel⟩

end Response
end WebApp
