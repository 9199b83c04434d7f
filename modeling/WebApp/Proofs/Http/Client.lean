import Mathlib.Tactic
import WebApp.Http.Method
import WebApp.Proofs.Http.Wire
import WebApp.Proofs.Number.Decimal
import WebApp.Proofs.Text.Utf8

/-!
# Responses as a client reads them

A client takes the head of a response as lines up to the first empty one, and then as many bytes
as the only length field says, unless the request or the status allows no body.  The bytes that
write a heading are read as that heading, and a heading that is read takes no more bytes than
write it.
-/

namespace WebApp
namespace Client

/-! ## Lines -/

/-- Where a client takes a line to end. -/
inductive LineEnd where
  /-- At a line feed right behind a carriage return. -/
  | strict
  /-- At any line feed; a carriage return right before it does not count. -/
  | lenient
deriving DecidableEq, Repr

/-- The bytes that no line holds. -/
def LineEnd.mark : LineEnd → Bytes
  | .strict => [13, 10]
  | .lenient => [10]

/-- No line ends inside the text. -/
def Unbroken (ending : LineEnd) (text : Bytes) : Prop :=
  ¬ ending.mark <:+: text

instance (ending : LineEnd) (text : Bytes) : Decidable (Unbroken ending text) :=
  inferInstanceAs (Decidable (¬ ending.mark <:+: text))

/-- A text without the carriage return at its end. -/
def bare (text : Bytes) : Bytes :=
  if text.getLast? = some 13 then text.dropLast else text

/-- The lines up to the first empty one, and the bytes behind it.  What was read of the first
line already is held. -/
def lines (ending : LineEnd) (held : Bytes) : Bytes → Option (List Bytes × Bytes)
  | [] => none
  | b :: rest =>
    if ending.mark <:+ held ++ [b] then
      if bare held = [] then some ([], rest)
      else (lines ending [] rest).map fun found => (bare held :: found.1, found.2)
    else lines ending (held ++ [b]) rest

/-- A text as a line. -/
def ended (text : Bytes) : Bytes := text ++ [13, 10]

variable {ending : LineEnd} {held text rest : Bytes}

theorem mem_mark {b : UInt8} (hb : b ∈ ending.mark) : b = 13 ∨ b = 10 := by
  cases ending with
  | strict => simpa [LineEnd.mark] using hb
  | lenient => exact .inr (by simpa [LineEnd.mark] using hb)

theorem mark_suffix_iff {b : UInt8} :
    ending.mark <:+ held ++ [b] ↔ b = 10 ∧ (ending = .strict → held.getLast? = some 13) := by
  constructor
  · rintro ⟨before, hbefore⟩
    cases ending with
    | strict =>
        have hsplit : before ++ [13] ++ [10] = held ++ [b] := by simpa [LineEnd.mark] using hbefore
        obtain ⟨rfl, hlast⟩ := List.append_inj' hsplit rfl
        obtain rfl : 10 = b := by simpa using hlast
        simp
    | lenient =>
        have hlast := (List.append_inj' hbefore rfl).2
        obtain rfl : 10 = b := by simpa [LineEnd.mark] using hlast
        simp
  · rintro ⟨rfl, hreturn⟩
    cases ending with
    | strict =>
        obtain ⟨before, rfl⟩ := List.getLast?_eq_some_iff.mp (hreturn rfl)
        exact ⟨before, by simp [LineEnd.mark]⟩
    | lenient => exact List.suffix_append held [10]

theorem Unbroken.of_infix (hunbroken : Unbroken ending text) {part : Bytes}
    (hpart : part <:+: text) : Unbroken ending part :=
  fun hmark => hunbroken (hmark.trans hpart)

theorem unbroken_nil : Unbroken ending [] := by
  cases ending <;> decide

theorem unbroken_of_notMem (hfeed : (10 : UInt8) ∉ text) : Unbroken ending text := by
  intro hmark
  apply hfeed
  apply hmark.subset
  cases ending <;> decide

/-- A byte that ends no line leaves a text unbroken. -/
theorem Unbroken.concat (hheld : Unbroken ending held) {b : UInt8}
    (hgo : ¬ ending.mark <:+ held ++ [b]) : Unbroken ending (held ++ [b]) := by
  intro hmark
  rcases List.infix_concat_iff.mp hmark with hsuffix | hinside
  · exact hgo hsuffix
  · exact hheld hinside

theorem infix_append_cons_iff {α : Type} {part front back : List α} {x : α} (hx : x ∉ part) :
    part <:+: front ++ x :: back ↔ part <:+: front ∨ part <:+: back := by
  constructor
  · intro hpart
    rcases List.infix_append_iff_ne_nil.mp hpart with hfront | hback | ⟨l, r, -, hr, rfl, -, hstart⟩
    · exact .inl hfront
    · rcases List.infix_cons_iff.mp hback with hstart | hback
      · cases part with
        | nil => exact .inl (List.nil_infix)
        | cons y part =>
            rw [List.cons_prefix_cons] at hstart
            exact absurd (by simp [hstart.1]) hx
      · exact .inr hback
    · cases r with
      | nil => exact absurd rfl hr
      | cons y r =>
          rw [List.cons_prefix_cons] at hstart
          exact absurd (by simp [hstart.1]) hx
  · rintro (hfront | hback)
    · exact List.infix_append_of_infix_left hfront
    · exact List.infix_append_of_infix_right (List.infix_cons hback)

/-- A byte that is no part of a line end parts a text in two that are broken or not. -/
theorem unbroken_append_cons_iff {b : UInt8} (hreturn : b ≠ 13) (hfeed : b ≠ 10)
    {front back : Bytes} :
    Unbroken ending (front ++ b :: back) ↔ Unbroken ending front ∧ Unbroken ending back := by
  have hb : b ∉ ending.mark := by
    intro hmem
    rcases mem_mark hmem with rfl | rfl <;> contradiction
  rw [Unbroken, infix_append_cons_iff hb, not_or]
  rfl

theorem lines_append (hunbroken : Unbroken ending (held ++ text)) (rest : Bytes) :
    lines ending held (text ++ rest) = lines ending (held ++ text) rest := by
  induction text generalizing held with
  | nil => simp
  | cons b text ih =>
      have hgo : ¬ ending.mark <:+ held ++ [b] := by
        intro hmark
        exact hunbroken (hmark.isInfix.trans ⟨[], text, by simp⟩)
      rw [List.cons_append, lines, if_neg hgo, ih (by simpa using hunbroken), List.append_assoc,
        List.singleton_append]

theorem bare_concat_return : bare (held ++ [13]) = held := by
  simp [bare]

/-- A line that holds no end of a line is read as it stands. -/
theorem lines_ended (hunbroken : Unbroken ending text) (rest : Bytes) :
    lines ending [] (ended text ++ rest) =
      if text = [] then some ([], rest)
      else (lines ending [] rest).map fun found => (text :: found.1, found.2) := by
  have hreturn : ¬ ending.mark <:+ text ++ [13] := by
    rw [mark_suffix_iff]
    simp
  have hfeed : ending.mark <:+ text ++ [13] ++ [10] := by
    rw [mark_suffix_iff]
    simp
  rw [ended, List.append_assoc, lines_append (by simpa using hunbroken), List.nil_append]
  simp only [List.cons_append, List.nil_append, lines]
  rw [if_neg hreturn, if_pos hfeed, bare_concat_return]

theorem lines_flatMap_ended {texts : List Bytes}
    (htexts : ∀ text ∈ texts, Unbroken ending text ∧ text ≠ []) (rest : Bytes) :
    lines ending [] (texts.flatMap ended ++ ended [] ++ rest) = some (texts, rest) := by
  induction texts with
  | nil => simpa using lines_ended unbroken_nil rest
  | cons text texts ih =>
      obtain ⟨hunbroken, hne⟩ := htexts text (by simp)
      have hrest := ih fun other hother => htexts other (by simp [hother])
      rw [List.flatMap_cons, List.append_assoc, List.append_assoc, lines_ended hunbroken,
        if_neg hne, ← List.append_assoc, hrest, Option.map_some]

theorem isInfix_bare (text : Bytes) : bare text <:+: text := by
  unfold bare
  split
  · exact (List.dropLast_prefix text).isInfix
  · exact List.infix_refl text

theorem length_le_bare (text : Bytes) : text.length ≤ (bare text).length + 1 := by
  unfold bare
  split
  · rw [List.length_dropLast]
    omega
  · omega

/-- The head ends with this byte, or a line does, or the line goes on. -/
theorem lines_cons_cases {b : UInt8} {bytes : Bytes} {texts : List Bytes}
    (hlines : lines ending held (b :: bytes) = some (texts, rest)) :
    (bare held = [] ∧ texts = [] ∧ rest = bytes) ∨
    (∃ more, bare held ≠ [] ∧ texts = bare held :: more ∧
      lines ending [] bytes = some (more, rest)) ∨
    (¬ ending.mark <:+ held ++ [b] ∧ lines ending (held ++ [b]) bytes = some (texts, rest)) := by
  by_cases hend : ending.mark <:+ held ++ [b]
  · by_cases hempty : bare held = []
    · simp only [lines, if_pos hend, if_pos hempty, Option.some.injEq, Prod.mk.injEq] at hlines
      exact .inl ⟨hempty, hlines.1.symm, hlines.2.symm⟩
    · simp only [lines, if_pos hend, if_neg hempty, Option.map_eq_some_iff, Prod.mk.injEq]
        at hlines
      obtain ⟨⟨more, left⟩, hmore, rfl, rfl⟩ := hlines
      exact .inr (.inl ⟨more, hempty, rfl, hmore⟩)
  · simp only [lines, if_neg hend] at hlines
    exact .inr (.inr ⟨hend, hlines⟩)

/-- Lines that are read hold no end of a line, and take no more bytes than write them. -/
theorem of_lines {bytes : Bytes} {texts : List Bytes} (hheld : Unbroken ending held)
    (hlines : lines ending held bytes = some (texts, rest)) :
    (∀ text ∈ texts, Unbroken ending text ∧ text ≠ []) ∧
      held.length + bytes.length ≤ (texts.flatMap ended ++ ended []).length + rest.length := by
  induction bytes generalizing held texts with
  | nil => simp [lines] at hlines
  | cons b bytes ih =>
      have hlength := length_le_bare held
      rcases lines_cons_cases hlines with
        ⟨hempty, rfl, rfl⟩ | ⟨more, hne, rfl, hmore⟩ | ⟨hgo, hmore⟩
      · rw [hempty, List.length_nil] at hlength
        simp only [List.not_mem_nil, false_implies, implies_true, List.flatMap_nil,
          List.nil_append, ended, List.length_cons, List.length_nil, true_and]
        omega
      · obtain ⟨hall, hle⟩ := ih unbroken_nil hmore
        refine ⟨List.forall_mem_cons.mpr ⟨⟨hheld.of_infix (isInfix_bare held), hne⟩, hall⟩, ?_⟩
        simp only [List.flatMap_cons, List.length_append, ended, List.length_cons,
          List.length_nil] at hle ⊢
        omega
      · obtain ⟨hall, hle⟩ := ih (hheld.concat hgo) hmore
        refine ⟨hall, ?_⟩
        simp only [List.length_append, List.length_cons, List.length_nil] at hle ⊢
        omega

theorem length_lt_of_lines {bytes : Bytes} {texts : List Bytes}
    (hlines : lines ending held bytes = some (texts, rest)) : rest.length < bytes.length := by
  induction bytes generalizing held texts with
  | nil => simp [lines] at hlines
  | cons b bytes ih =>
      rw [List.length_cons]
      rcases lines_cons_cases hlines with ⟨-, -, rfl⟩ | ⟨more, -, -, hmore⟩ | ⟨-, hmore⟩
      · exact Nat.lt_succ_self _
      · exact Nat.lt_succ_of_lt (ih hmore)
      · exact Nat.lt_succ_of_lt (ih hmore)

/-! ## Headings -/

/-- A text without one blank at its beginning. -/
def afterBlank : Bytes → Bytes
  | 32 :: rest => rest
  | text => text

/-- Any byte but a colon. -/
def isName (b : UInt8) : Bool := b != 58

/-- The name before the first colon, and the value behind it. -/
def field? (text : Bytes) : Option (Bytes × Bytes) :=
  let name := text.takeWhile isName
  match text.dropWhile isName with
  | [] => none
  | _ :: value => if name = [] then none else some (name, afterBlank value)

/-- The line of a field. -/
def fieldText (field : Bytes × Bytes) : Bytes := field.1 ++ 58 :: 32 :: field.2

def Named (field : Bytes × Bytes) : Prop := field.1 ≠ [] ∧ (58 : UInt8) ∉ field.1

/-- A field whose line is read as this field. -/
structure Readable (ending : LineEnd) (field : Bytes × Bytes) : Prop where
  named : Named field
  name : Unbroken ending field.1
  value : Unbroken ending field.2

theorem field?_fieldText {field : Bytes × Bytes} (hnamed : Named field) :
    field? (fieldText field) = some field := by
  obtain ⟨name, value⟩ := field
  obtain ⟨hne, hcolon⟩ := hnamed
  have hall : ∀ b ∈ name, isName b = true := by
    intro b hb
    rw [isName, bne_iff_ne]
    rintro rfl
    exact hcolon hb
  have htake : (fieldText (name, value)).takeWhile isName = name := by
    simp [fieldText, List.takeWhile_append_of_pos hall, isName]
  have hdrop : (fieldText (name, value)).dropWhile isName = 58 :: 32 :: value := by
    simp [fieldText, List.dropWhile_append_of_pos hall, isName]
  simp only [field?, htake, hdrop, if_neg (show name ≠ [] from hne), afterBlank]

theorem afterBlank_suffix (text : Bytes) : afterBlank text <:+ text := by
  unfold afterBlank
  split
  · exact List.suffix_cons _ _
  · exact List.suffix_refl _

theorem length_le_afterBlank (text : Bytes) : text.length ≤ (afterBlank text).length + 1 := by
  unfold afterBlank
  split <;> simp

theorem of_field? {field : Bytes × Bytes} (hfield : field? text = some field) :
    Named field ∧ field.1 <:+: text ∧ field.2 <:+: text ∧
      text.length ≤ (fieldText field).length := by
  have hsplit := List.takeWhile_append_dropWhile (p := isName) (l := text)
  have hcolon : (58 : UInt8) ∉ text.takeWhile isName := by
    intro hmem
    simpa [isName] using List.mem_takeWhile_imp hmem
  unfold field? at hfield
  cases hdrop : text.dropWhile isName with
  | nil => simp only [hdrop, reduceCtorEq] at hfield
  | cons colon value =>
      rw [hdrop] at hsplit
      simp only [hdrop, Option.ite_none_left_eq_some, Option.some.injEq] at hfield
      obtain ⟨hname, rfl⟩ := hfield
      have hlength := length_le_afterBlank value
      have hvalue : value <:+: text :=
        ⟨text.takeWhile isName ++ [colon], [], by simpa using hsplit⟩
      refine ⟨⟨hname, hcolon⟩, (List.takeWhile_prefix isName).isInfix,
        (afterBlank_suffix value).isInfix.trans hvalue, ?_⟩
      have htext := congrArg List.length hsplit
      simp only [List.length_append, List.length_cons, fieldText] at htext ⊢
      omega

/-- What a head says: the status line behind the version, and the fields in order. -/
structure Heading where
  status : Bytes
  fields : List (Bytes × Bytes)
deriving DecidableEq, Repr

namespace Heading

def version : Bytes := Utf8.encode "HTTP/1.1 "

def texts (heading : Heading) : List Bytes :=
  (version ++ heading.status) :: heading.fields.map fieldText

/-- The bytes that write the heading. -/
def bytes (heading : Heading) : Bytes :=
  heading.texts.flatMap ended ++ ended []

def ofTexts? : List Bytes → Option Heading
  | [] => none
  | first :: more =>
    if version <+: first then
      (more.mapM field?).map fun fields => ⟨first.drop version.length, fields⟩
    else none

/-- A heading whose lines are read as this heading. -/
structure Readable (ending : LineEnd) (heading : Heading) : Prop where
  status : Unbroken ending heading.status
  fields : ∀ field ∈ heading.fields, Client.Readable ending field

end Heading

/-- The heading at the beginning of the bytes, and the bytes behind it. -/
def heading? (ending : LineEnd) (bytes : Bytes) : Option (Heading × Bytes) :=
  (lines ending [] bytes).bind fun found =>
    (Heading.ofTexts? found.1).map fun heading => (heading, found.2)

theorem length_lt_of_heading? {bytes : Bytes} {heading : Heading}
    (hheading : heading? ending bytes = some (heading, rest)) : rest.length < bytes.length := by
  simp only [heading?, Option.bind_eq_some_iff, Option.map_eq_some_iff, Prod.mk.injEq] at hheading
  obtain ⟨_, hlines, _, -, -, rfl⟩ := hheading
  exact length_lt_of_lines hlines

theorem unbroken_fieldText_iff {field : Bytes × Bytes} :
    Unbroken ending (fieldText field) ↔ Unbroken ending field.1 ∧ Unbroken ending field.2 := by
  have hblank : (58 : UInt8) :: 32 :: field.2 = [58] ++ 32 :: field.2 := rfl
  rw [fieldText, unbroken_append_cons_iff (by decide) (by decide),
    show (32 : UInt8) :: field.2 = [] ++ 32 :: field.2 from rfl,
    unbroken_append_cons_iff (by decide) (by decide)]
  simp [unbroken_nil]

theorem unbroken_version_append_iff {status : Bytes} :
    Unbroken ending (Heading.version ++ status) ↔ Unbroken ending status := by
  have hversion : Heading.version ++ status = Utf8.encode "HTTP/1.1" ++ 32 :: status := rfl
  have hfirst : Unbroken ending (Utf8.encode "HTTP/1.1") := unbroken_of_notMem (by decide +kernel)
  rw [hversion, unbroken_append_cons_iff (by decide) (by decide)]
  exact and_iff_right hfirst

theorem mapM_field?_fieldText {fields : List (Bytes × Bytes)}
    (hnamed : ∀ field ∈ fields, Named field) :
    (fields.map fieldText).mapM field? = some fields := by
  induction fields with
  | nil => rfl
  | cons field fields ih =>
      have hfirst := field?_fieldText (hnamed field (by simp))
      have hrest := ih fun other hother => hnamed other (by simp [hother])
      simp [List.mapM_cons, hfirst, hrest]

/-- A readable heading is read from the bytes that write it, whatever follows. -/
theorem heading?_bytes {heading : Heading} (hreadable : heading.Readable ending) (rest : Bytes) :
    heading? ending (heading.bytes ++ rest) = some (heading, rest) := by
  have htexts : ∀ text ∈ heading.texts, Unbroken ending text ∧ text ≠ [] := by
    intro text htext
    rcases List.mem_cons.mp htext with rfl | hmem
    · have hversion : Heading.version ≠ [] := by decide +kernel
      exact ⟨unbroken_version_append_iff.mpr hreadable.status, by simp [hversion]⟩
    · obtain ⟨field, hfield, rfl⟩ := List.mem_map.mp hmem
      have hline := hreadable.fields field hfield
      exact ⟨unbroken_fieldText_iff.mpr ⟨hline.name, hline.value⟩, by simp [fieldText]⟩
  have hfields := mapM_field?_fieldText fun field hfield => (hreadable.fields field hfield).named
  rw [heading?, Heading.bytes, lines_flatMap_ended htexts, Option.bind_some, Heading.texts,
    Heading.ofTexts?, if_pos (List.prefix_append _ _), hfields, List.drop_left]
  rfl

theorem of_mapM_field? {texts : List Bytes} {fields : List (Bytes × Bytes)}
    (hfields : texts.mapM field? = some fields) :
    (∀ field ∈ fields, Named field ∧ ∃ text ∈ texts, field.1 <:+: text ∧ field.2 <:+: text) ∧
      (texts.flatMap ended).length ≤ ((fields.map fieldText).flatMap ended).length := by
  induction texts generalizing fields with
  | nil =>
      obtain rfl : fields = [] := by simpa [eq_comm] using hfields
      simp
  | cons text texts ih =>
      simp only [List.mapM_cons, Option.pure_def, Option.bind_eq_bind, Option.bind_eq_some_iff,
        Option.some.injEq] at hfields
      obtain ⟨field, hfield, more, hmore, rfl⟩ := hfields
      obtain ⟨hnamed, hname, hvalue, hlength⟩ := of_field? hfield
      obtain ⟨hall, hle⟩ := ih hmore
      constructor
      · refine List.forall_mem_cons.mpr ⟨⟨hnamed, text, by simp, hname, hvalue⟩, ?_⟩
        intro other hother
        obtain ⟨hnamed, text, htext, hparts⟩ := hall other hother
        exact ⟨hnamed, text, by simp [htext], hparts⟩
      · simp only [List.flatMap_cons, List.map_cons, List.length_append, ended] at hle ⊢
        omega

theorem length_of_mapM_field? {texts : List Bytes} {fields : List (Bytes × Bytes)}
    (hfields : texts.mapM field? = some fields) : fields.length = texts.length := by
  induction texts generalizing fields with
  | nil =>
      obtain rfl : fields = [] := by simpa [eq_comm] using hfields
      rfl
  | cons text texts ih =>
      simp only [List.mapM_cons, Option.pure_def, Option.bind_eq_bind, Option.bind_eq_some_iff,
        Option.some.injEq] at hfields
      obtain ⟨field, -, more, hmore, rfl⟩ := hfields
      rw [List.length_cons, List.length_cons, ih hmore]

/-- A heading that is read is readable, and takes no more bytes than write it. -/
theorem of_heading? {bytes : Bytes} {heading : Heading}
    (hheading : heading? ending bytes = some (heading, rest)) :
    heading.Readable ending ∧ bytes.length ≤ heading.bytes.length + rest.length := by
  simp only [heading?, Option.bind_eq_some_iff, Option.map_eq_some_iff, Prod.mk.injEq] at hheading
  obtain ⟨⟨texts, left⟩, hlines, found, htexts, rfl, rfl⟩ := hheading
  obtain ⟨hall, hle⟩ := of_lines unbroken_nil hlines
  cases texts with
  | nil => simp [Heading.ofTexts?] at htexts
  | cons first more =>
      by_cases hversion : Heading.version <+: first
      · simp only [Heading.ofTexts?, if_pos hversion, Option.map_eq_some_iff] at htexts
        obtain ⟨fields, hfields, rfl⟩ := htexts
        obtain ⟨hparts, hlength⟩ := of_mapM_field? hfields
        obtain ⟨status, rfl⟩ := hversion
        refine ⟨⟨?_, ?_⟩, ?_⟩
        · rw [List.drop_left]
          exact unbroken_version_append_iff.mp (hall _ (by simp)).1
        · intro field hfield
          obtain ⟨hnamed, text, htext, hname, hvalue⟩ := hparts field hfield
          have hunbroken := (hall text (by simp [htext])).1
          exact ⟨hnamed, hunbroken.of_infix hname, hunbroken.of_infix hvalue⟩
        · simp only [Heading.bytes, Heading.texts, List.drop_left, List.flatMap_cons,
            List.length_append, List.length_nil, Nat.zero_add] at hle hlength ⊢
          omega
      · simp [Heading.ofTexts?, hversion] at htexts

/-! ## Whole responses -/

/-- A field that tells the length of the body. -/
def isLength (field : Bytes × Bytes) : Bool :=
  (Utf8.decode? field.1).any fun name => Text.sameFolded name "content-length"

namespace Heading

/-- The number at the beginning of the status line. -/
def code? (heading : Heading) : Option Nat :=
  (Utf8.decode? (heading.status.takeWhile (· ≠ 32))).bind Text.decimal?

/-- The values of the length fields. -/
def lengths (heading : Heading) : List Bytes :=
  (heading.fields.filter isLength).map Prod.snd

/-- The length of the body, when there is just one length field. -/
def length? (heading : Heading) : Option Nat :=
  match heading.lengths with
  | [value] => (Utf8.decode? value).bind Text.decimal?
  | _ => none

end Heading

structure Answer where
  heading : Heading
  body : Bytes
deriving DecidableEq, Repr

/-- The response at the beginning of the bytes, and the bytes behind it.  Whether it has a body
depends on its status code. -/
def answer? (ending : LineEnd) (hasBody : Nat → Bool) (bytes : Bytes) : Option (Answer × Bytes) :=
  (heading? ending bytes).bind fun found =>
    found.1.code?.bind fun code =>
      if hasBody code then
        found.1.length?.bind fun length =>
          if found.2.length < length then none
          else some (⟨found.1, found.2.take length⟩, found.2.drop length)
      else some (⟨found.1, []⟩, found.2)

variable {hasBody : Nat → Bool}

/-- The body is what follows the head, up to the bytes that are left. -/
theorem heading?_of_answer? {bytes : Bytes} {answer : Answer}
    (hanswer : answer? ending hasBody bytes = some (answer, rest)) :
    ∃ left, heading? ending bytes = some (answer.heading, left) ∧ left = answer.body ++ rest := by
  simp only [answer?, Option.bind_eq_some_iff] at hanswer
  obtain ⟨⟨heading, left⟩, hheading, code, -, hrest⟩ := hanswer
  by_cases hhas : hasBody code = true
  · simp only [hhas, if_true, Option.bind_eq_some_iff, Option.ite_none_left_eq_some,
      Option.some.injEq, Prod.mk.injEq] at hrest
    obtain ⟨length, -, -, rfl, rfl⟩ := hrest
    exact ⟨left, hheading, (List.take_append_drop length left).symm⟩
  · simp only [hhas, Bool.false_eq_true, if_false, Option.some.injEq, Prod.mk.injEq] at hrest
    obtain ⟨rfl, rfl⟩ := hrest
    exact ⟨left, hheading, rfl⟩

theorem length_lt_of_answer? {bytes : Bytes} {answer : Answer}
    (hanswer : answer? ending hasBody bytes = some (answer, rest)) :
    rest.length < bytes.length := by
  obtain ⟨_, hheading, rfl⟩ := heading?_of_answer? hanswer
  have hlt := length_lt_of_heading? hheading
  rw [List.length_append] at hlt
  omega

/-- All responses that the bytes hold, one behind the other, each with a body. -/
def answers? (ending : LineEnd) (bytes : Bytes) : Option (List Answer) :=
  if bytes = [] then some []
  else
    match _ : answer? ending (fun _ => true) bytes with
    | none => none
    | some (answer, rest) => (answers? ending rest).map (answer :: ·)
termination_by bytes.length
decreasing_by exact length_lt_of_answer? (by assumption)

theorem answers?_of_answer? {bytes : Bytes} {answer : Answer}
    (hanswer : answer? ending (fun _ => true) bytes = some (answer, rest)) :
    answers? ending bytes = (answers? ending rest).map (answer :: ·) := by
  have hne : bytes ≠ [] := by
    rintro rfl
    simpa using length_lt_of_answer? hanswer
  rw [answers?, if_neg hne]
  split
  · next hnone => simp [hnone] at hanswer
  · next other left hsome =>
      rw [hsome] at hanswer
      simp only [Option.some.injEq, Prod.mk.injEq] at hanswer
      rw [hanswer.1, hanswer.2]

theorem answer?_bytes {heading : Heading} {code : Nat} {body : Bytes}
    (hreadable : heading.Readable ending) (hcode : heading.code? = some code)
    (hlength : heading.length? = some body.length) (rest : Bytes)
    (hbody : hasBody code = true ∨ body = []) :
    answer? ending hasBody (heading.bytes ++ body ++ rest) = some (⟨heading, body⟩, rest) := by
  rw [answer?, List.append_assoc, heading?_bytes hreadable]
  simp only [Option.bind_some, hcode, hlength]
  by_cases hhas : hasBody code = true
  · simp [hhas]
  · obtain rfl : body = [] := hbody.resolve_left hhas
    simp [hhas]

/-- A response that is read is readable, and takes no more bytes than write it. -/
theorem of_answer? {bytes : Bytes} {answer : Answer}
    (hanswer : answer? ending hasBody bytes = some (answer, rest)) :
    answer.heading.Readable ending ∧
      bytes.length ≤ answer.heading.bytes.length + answer.body.length + rest.length := by
  obtain ⟨_, hheading, rfl⟩ := heading?_of_answer? hanswer
  obtain ⟨hreadable, hle⟩ := of_heading? hheading
  rw [List.length_append] at hle
  exact ⟨hreadable, by omega⟩

end Client
end WebApp
