import Mathlib.Tactic
import WebApp.Proofs.Http.HeadStream
import WebApp.Proofs.Text.Trimming
import WebApp.Proofs.Text.Utf8

/-!
# Requests as a client writes them

A client writes a request line, a line for each field and an empty line, and the body behind them.
The head reader undoes this part by part: each part is followed by a byte that it cannot hold, so
that it is read just as it was written.  What is read is therefore the request that was written,
and no beginning of the head is taken for the whole.
-/

namespace WebApp

/-! ## The parts of a head -/

/-- A letter, a digit, or one of the signs that may stand in a name. -/
def tokenChar (c : Char) : Bool :=
  c.isAlphanum || "!#$%&'*+-.^_`|~".toList.contains c

/-- A method, or the name of a field. -/
structure Token where
  text : String
  nonempty : text ≠ ""
  chars : ∀ c ∈ text.toList, tokenChar c = true

/-- What a request is for. -/
structure Target where
  text : String
  nonempty : text ≠ ""
  chars : ∀ c ∈ text.toList, ' ' < c ∧ c ≠ '\x7f'

/-- The value of a field.  It holds no control characters other than tabs, and no blank or tab
stands at either end. -/
structure FieldValue where
  text : String
  chars : ∀ c ∈ text.toList, c = '\t' ∨ ' ' ≤ c ∧ c ≠ '\x7f'
  first : ∀ c ∈ text.toList.head?, c ≠ ' ' ∧ c ≠ '\t'
  last : ∀ c ∈ text.toList.getLast?, c ≠ ' ' ∧ c ≠ '\t'

theorem toNat_lt_of_tokenChar {c : Char} (hc : tokenChar c = true) : c.toNat < 128 := by
  have hle : ∀ d : Char, c.val ≤ d.val → c.toNat ≤ d.toNat := fun _ hle => hle
  rcases Bool.or_eq_true_iff.mp hc with halphanum | hsign
  · rcases Bool.or_eq_true_iff.mp halphanum with halpha | hdigit
    · rcases Bool.or_eq_true_iff.mp halpha with hupper | hlower
      · exact (hle 'Z' (of_decide_eq_true hupper).2).trans_lt (by decide)
      · have hlast := of_decide_eq_true (Bool.and_eq_true_iff.mp hlower).2
        exact (hle 'z' hlast).trans_lt (by decide)
    · have hlast := of_decide_eq_true (Bool.and_eq_true_iff.mp hdigit).2
      exact (hle '9' hlast).trans_lt (by decide)
  · have hsigns : ∀ d ∈ "!#$%&'*+-.^_`|~".toList, d.toNat < 128 := by simp
    exact hsigns c (List.contains_iff_mem.mp hsign)

theorem isToken_of_tokenChar {c : Char} (hc : tokenChar c = true) :
    Head.isToken c.toNat.toUInt8 = true := by
  have hall : ∀ code < 128, tokenChar (Char.ofNat code) = true →
      Head.isToken code.toUInt8 = true := by
    decide +kernel
  apply hall c.toNat (toNat_lt_of_tokenChar hc)
  rwa [Char.ofNat_toNat]

theorem isTarget_iff (b : UInt8) :
    Head.isTarget b = true ↔ 0x21 ≤ b.toNat ∧ b.toNat ≤ 0x7E ∨ 0x80 ≤ b.toNat := by
  simp only [Head.isTarget, Bool.or_eq_true, Bool.and_eq_true, decide_eq_true_eq,
    UInt8.le_iff_toNat_le, UInt8.reduceToNat]

theorem isValue_iff (b : UInt8) :
    Head.isValue b = true ↔
      b.toNat = 9 ∨ 0x20 ≤ b.toNat ∧ b.toNat ≤ 0x7E ∨ 0x80 ≤ b.toNat := by
  simp only [Head.isValue, Bool.or_eq_true, Bool.and_eq_true, decide_eq_true_eq, beq_iff_eq,
    UInt8.le_iff_toNat_le, ← UInt8.toNat_inj, UInt8.reduceToNat, or_assoc]

/-! ## What their bytes are -/

theorem Token.isToken (t : Token) : ∀ b ∈ Utf8.encode t.text, Head.isToken b = true := by
  rw [Utf8.encode_of_ascii fun c hc => toNat_lt_of_tokenChar (t.chars c hc)]
  intro b hb
  obtain ⟨c, hc, rfl⟩ := List.mem_map.mp hb
  exact isToken_of_tokenChar (t.chars c hc)

theorem Token.exists_cons (t : Token) :
    ∃ b tail, Utf8.encode t.text = b :: tail ∧ b ≠ 13 ∧ b ≠ 10 := by
  have hend : Head.isToken 13 = false ∧ Head.isToken 10 = false := by decide +kernel
  obtain ⟨b, tail, hbytes⟩ := List.exists_cons_of_ne_nil (Utf8.encode_ne_nil t.nonempty)
  have hb : Head.isToken b = true := t.isToken b (by simp [hbytes])
  refine ⟨b, tail, hbytes, ?_, ?_⟩
  · rintro rfl
    simp [hend.1] at hb
  · rintro rfl
    simp [hend.2] at hb

theorem Token.asciiText (t : Token) : Head.asciiText (Utf8.encode t.text) = t.text := by
  have hascii : ∀ c ∈ t.text.toList, c.toNat < 128 :=
    fun c hc => toNat_lt_of_tokenChar (t.chars c hc)
  have hback : ∀ c ∈ t.text.toList, Char.ofNat c.toNat.toUInt8.toNat = c := by
    intro c hc
    rw [Utf8.toNat_ofNat ((hascii c hc).trans (by decide)), Char.ofNat_toNat]
  rw [Utf8.encode_of_ascii hascii, Head.asciiText, List.map_map]
  exact (congrArg String.ofList (List.map_congr_left hback)).trans (by simp)

theorem Target.isTarget (t : Target) : ∀ b ∈ Utf8.encode t.text, Head.isTarget b = true := by
  intro b hb
  obtain ⟨c, hc, hbyte⟩ := List.mem_flatMap.mp hb
  rw [isTarget_iff]
  rcases Utf8.mem_utf8EncodeChar hbyte with ⟨hascii, heq⟩ | hhigh
  · obtain ⟨hlow, hdelete⟩ := t.chars c hc
    have hlow : 32 < c.toNat := hlow
    have hdelete : c.toNat ≠ 127 := fun h => hdelete (Char.toNat_inj.mp h)
    omega
  · exact .inr hhigh

theorem FieldValue.isValue (v : FieldValue) : ∀ b ∈ Utf8.encode v.text, Head.isValue b = true := by
  intro b hb
  obtain ⟨c, hc, hbyte⟩ := List.mem_flatMap.mp hb
  rw [isValue_iff]
  rcases Utf8.mem_utf8EncodeChar hbyte with ⟨hascii, heq⟩ | hhigh
  · rcases v.chars c hc with rfl | ⟨hlow, hdelete⟩
    · exact .inl heq
    · have hlow : 32 ≤ c.toNat := hlow
      have hdelete : c.toNat ≠ 127 := fun h => hdelete (Char.toNat_inj.mp h)
      omega
  · exact .inr (.inr hhigh)

theorem isBlank_of_mem_utf8EncodeChar {c : Char} (hc : c ≠ ' ' ∧ c ≠ '\t') {b : UInt8}
    (hb : b ∈ String.utf8EncodeChar c) : Head.isBlank b = false := by
  have hspace : c.toNat ≠ 32 := fun h => hc.1 (Char.toNat_inj.mp h)
  have htab : c.toNat ≠ 9 := fun h => hc.2 (Char.toNat_inj.mp h)
  simp only [Head.isBlank, Bool.or_eq_false_iff, beq_eq_false_iff_ne, ne_eq, ← UInt8.toNat_inj,
    UInt8.reduceToNat]
  rcases Utf8.mem_utf8EncodeChar hb with ⟨hascii, heq⟩ | hhigh <;> omega

/-! ## Reading the parts -/

namespace Head

theorem takeWhile_append_cons {p : UInt8 → Bool} {word : Bytes} {b : UInt8}
    (hword : ∀ b ∈ word, p b = true) (hb : p b = false) (rest : Bytes) :
    (word ++ b :: rest).takeWhile p = word := by
  rw [List.takeWhile_append_of_pos hword, List.takeWhile_cons_of_neg (by simp [hb]),
    List.append_nil]

theorem dropWhile_append_cons {p : UInt8 → Bool} {word : Bytes} {b : UInt8}
    (hword : ∀ b ∈ word, p b = true) (hb : p b = false) (rest : Bytes) :
    (word ++ b :: rest).dropWhile p = b :: rest :=
  Text.dropWhile_append_self hword (by simpa using hb)

theorem wordBefore_append {p : UInt8 → Bool} {word : Bytes} (hword : ∀ b ∈ word, p b = true)
    (hne : word ≠ []) (hblank : p 32 = false) (rest : Bytes) :
    wordBefore p (word ++ 32 :: rest) = .ok (word, rest) := by
  simp only [wordBefore, takeWhile_append_cons hword hblank, dropWhile_append_cons hword hblank]
  rw [if_pos ⟨trivial, hne⟩]

theorem skipEmptyLines_append (t : Token) (rest : Bytes) :
    skipEmptyLines (Utf8.encode t.text ++ rest) = .ok ((), Utf8.encode t.text ++ rest) := by
  obtain ⟨b, tail, hbytes, hreturn, hfeed⟩ := t.exists_cons
  rw [hbytes, List.cons_append]
  cases tail ++ rest <;> simp [skipEmptyLines, hreturn, hfeed]

theorem method_append (t : Token) (rest : Bytes) :
    method (Utf8.encode t.text ++ 32 :: rest) = .ok (Method.ofName t.text, rest) := by
  rw [method, wordBefore_append t.isToken (Utf8.encode_ne_nil t.nonempty) (by decide +kernel)]
  simp [bind, Except.bind, pure, Except.pure, t.asciiText]

theorem target_append (t : Target) (rest : Bytes) :
    target (Utf8.encode t.text ++ 32 :: rest) = .ok (t.text, rest) := by
  rw [target, wordBefore_append t.isTarget (Utf8.encode_ne_nil t.nonempty) (by decide)]
  simp [bind, Except.bind, pure, Except.pure, Utf8.decode?_encode]

theorem version_append (minor : Fin 2) (rest : Bytes) :
    version (Utf8.encode ("HTTP/1." ++ toString minor) ++ rest) = .ok (minor.val, rest) := by
  have hcommon : Utf8.encode "HTTP/1." = [72, 84, 84, 80, 47, 49, 46] := by decide +kernel
  have hdigits : ∀ minor : Fin 2, Utf8.encode (toString minor) = [48 + minor.val.toUInt8] := by
    decide +kernel
  rw [Utf8.encode_append, hcommon, hdigits]
  match minor with
  | 0 => simp [version, hcommon, minorVersion]
  | 1 => simp [version, hcommon, minorVersion]

theorem fieldValue_append (v : FieldValue) (rest : Bytes) :
    fieldValue (32 :: (Utf8.encode v.text ++ 13 :: 10 :: rest)) =
      .ok (Utf8.encode v.text, rest) := by
  have hfirst : ∀ b ∈ (Utf8.encode v.text ++ 13 :: 10 :: rest).head?, isBlank b = false := by
    intro b hb
    rw [List.head?_append] at hb
    cases hv : (Utf8.encode v.text).head? with
    | none =>
        simp only [hv, Option.none_or, List.head?_cons, Option.mem_some_iff] at hb
        rw [← hb]
        rfl
    | some first =>
        rw [hv, Option.some_or] at hb
        obtain ⟨c, hc, hbyte⟩ := Utf8.mem_head?_encode (hv ▸ hb)
        exact isBlank_of_mem_utf8EncodeChar (v.first c hc) hbyte
  have hlast : ∀ b ∈ (Utf8.encode v.text).getLast?, isBlank b = false := by
    intro b hb
    obtain ⟨c, hc, hbyte⟩ := Utf8.mem_getLast?_encode hb
    exact isBlank_of_mem_utf8EncodeChar (v.last c hc) hbyte
  have hblank : (32 :: (Utf8.encode v.text ++ 13 :: 10 :: rest)).dropWhile isBlank =
      Utf8.encode v.text ++ 13 :: 10 :: rest := by
    rw [List.dropWhile_cons_of_pos (by rfl), Text.dropWhile_of_head? hfirst]
  have htrim : trimEnd (Utf8.encode v.text) = Utf8.encode v.text :=
    Text.rdropWhile_of_getLast? hlast
  have hreturn : isValue 13 = false := by decide
  simp only [fieldValue, hblank, takeWhile_append_cons v.isValue hreturn,
    dropWhile_append_cons v.isValue hreturn, htrim]
  rfl

theorem field_append (name : Token) (v : FieldValue) (rest : Bytes) :
    field (Utf8.encode name.text ++ 58 :: 32 :: (Utf8.encode v.text ++ 13 :: 10 :: rest)) =
      .ok ((name.text, Utf8.encode v.text), rest) := by
  have hcolon : isToken 58 = false := by decide +kernel
  simp only [field, takeWhile_append_cons name.isToken hcolon,
    dropWhile_append_cons name.isToken hcolon]
  rw [if_neg (by simpa using Utf8.encode_ne_nil name.nonempty), fieldValue_append]
  simp [bind, Except.bind, pure, Except.pure, name.asciiText]

theorem fields_cons {b : UInt8} (hreturn : b ≠ 13) (hfeed : b ≠ 10) (limit : Nat) (tail : Bytes) :
    fields (limit + 1) (b :: tail) = (do
      let (entry, rest) ← field (b :: tail)
      let (entries, rest) ← fields limit rest
      return (entry :: entries, rest)) := by
  rw [fields, if_neg (not_or.mpr ⟨hreturn, hfeed⟩)]

end Head

/-! ## Methods -/

namespace Method

theorem name_ofName (name : String) : (ofName name).name = name := by
  have hnames : ∀ entry ∈ known, entry.2.2.name = entry.1 := by decide
  unfold ofName
  split
  next hfound =>
    rw [hnames _ (List.mem_of_find?_eq_some hfound)]
    simpa using List.find?_some hfound
  next => rfl

/-- A name that a constructor stands for is not kept as a name. -/
theorem ofName_ne_custom {name : String} (hname : name ∈ known.map Prod.fst) (other : String) :
    ofName name ≠ .custom other := by
  have hconstructors : ∀ name ∈ known.map Prod.fst, ofName name ∈ known.map fun entry =>
    entry.2.2 := by decide
  intro hcustom
  have hmem := hconstructors name hname
  simp [hcustom, known] at hmem

end Method

namespace Request

theorem method_new (m : Method) (target : String) : (new m target).method = m := by
  unfold new
  split <;> rfl

/-- A target is cut at its first question mark. -/
theorem target_new (m : Method) (target : String) :
    '?' ∉ (new m target).path.toList ∧
      target = (new m target).query.elim (new m target).path
        fun query => (new m target).path ++ "?" ++ query := by
  unfold new
  cases hsplit : Text.splitOnce '?' target with
  | none => exact ⟨Text.splitOnce_eq_none_iff.mp hsplit, rfl⟩
  | some parts =>
      obtain ⟨htarget, hpath⟩ := Text.splitOnce_eq_some_iff.mp hsplit
      refine ⟨hpath, String.toList_injective ?_⟩
      simpa using htarget

end Request

/-! ## Whole requests -/

/-- The head of a request with its parts. -/
structure RequestText where
  method : Token
  target : Target
  /-- The minor number of the version. -/
  minor : Fin 2
  fields : List (Token × FieldValue)
  few : fields.length ≤ 64

namespace RequestText

def entry (field : Token × FieldValue) : String × String :=
  (field.1.text, field.2.text)

def line (entry : String × String) : String :=
  entry.1 ++ ": " ++ entry.2 ++ "\r\n"

/-- The bytes of the head, up to the end of the empty line. -/
def head (t : RequestText) : Bytes :=
  Utf8.encode (t.method.text ++ " " ++ t.target.text ++ " HTTP/1." ++ toString t.minor ++ "\r\n" ++
    String.join (t.fields.map fun field => line (entry field)) ++ "\r\n")

/-- The request is the one that was written: its method has a constructor of its own unless there
is none for the name, its path ends before the first question mark of the target, and its fields
are all there, in order. -/
structure Describes (t : RequestText) (body : Bytes) (r : Request) : Prop where
  method : r.method.name = t.method.text
  custom : ∀ name, r.method = .custom name → name ∉
    ["GET", "POST", "PUT", "DELETE", "HEAD", "OPTIONS", "PATCH", "CONNECT", "TRACE"]
  path : '?' ∉ r.path.toList
  target : t.target.text = r.query.elim r.path fun query => r.path ++ "?" ++ query
  version : r.version = t.minor
  headers : r.headers.entries = t.fields.map entry
  body : r.body = body

theorem encode_line (field : Token × FieldValue) :
    Utf8.encode (line (entry field)) =
      Utf8.encode field.1.text ++ 58 :: 32 :: (Utf8.encode field.2.text ++ [13, 10]) := by
  have hcolon : Utf8.encode ": " = [58, 32] := by decide +kernel
  have hend : Utf8.encode "\r\n" = [13, 10] := by decide +kernel
  simp [line, entry, Utf8.encode_append, hcolon, hend]

theorem fields_append {limit : Nat} {fields : List (Token × FieldValue)}
    (hfew : fields.length ≤ limit) (rest : Bytes) :
    Head.fields limit
        (Utf8.encode (String.join (fields.map fun field => line (entry field))) ++
          13 :: 10 :: rest) =
      .ok (fields.map fun field => (field.1.text, Utf8.encode field.2.text), rest) := by
  induction fields generalizing limit with
  | nil => cases limit <;> rfl
  | cons field fields ih =>
      obtain ⟨limit, rfl⟩ := Nat.exists_eq_add_one_of_ne_zero
        (Nat.ne_of_gt (Nat.lt_of_lt_of_le (Nat.succ_pos _) hfew))
      -- The name begins with a byte that ends no line, so that another field is read.
      obtain ⟨b, tail, hbytes, hreturn, hfeed⟩ := field.1.exists_cons
      have hfield := Head.field_append field.1 field.2
        (Utf8.encode (String.join (fields.map fun field => line (entry field))) ++ 13 :: 10 :: rest)
      rw [List.map_cons, String.join_cons, Utf8.encode_append, encode_line]
      simp only [List.append_assoc, List.cons_append, List.nil_append, hbytes] at hfield ⊢
      rw [Head.fields_cons hreturn hfeed, hfield]
      simp only [bind, Except.bind, ih (Nat.le_of_succ_le_succ hfew)]
      rfl

theorem head_append (t : RequestText) (body : Bytes) :
    t.head ++ body = Utf8.encode t.method.text ++ 32 :: (Utf8.encode t.target.text ++
      32 :: (Utf8.encode ("HTTP/1." ++ toString t.minor) ++ 13 :: 10 ::
        (Utf8.encode (String.join (t.fields.map fun field => line (entry field))) ++
          13 :: 10 :: body))) := by
  have hblank : Utf8.encode " " = [32] := by decide +kernel
  have hend : Utf8.encode "\r\n" = [13, 10] := by decide +kernel
  have hversion : Utf8.encode " HTTP/1." = 32 :: Utf8.encode "HTTP/1." := by decide +kernel
  simp [head, Utf8.encode_append, hblank, hend, hversion]

theorem filterMap_textField? (fields : List (Token × FieldValue)) :
    (fields.map fun field => (field.1.text, Utf8.encode field.2.text)).filterMap
        Head.textField? = fields.map entry := by
  have hfield : ∀ field : Token × FieldValue,
      Head.textField? (field.1.text, Utf8.encode field.2.text) = some (entry field) := by
    intro field
    rw [Head.textField?, Utf8.decode?_encode, Option.map_some, entry]
  rw [List.filterMap_map, ← List.filterMap_eq_map]
  exact List.filterMap_congr fun field _ => hfield field

def request (t : RequestText) : Request :=
  { Request.new (Method.ofName t.method.text) t.target.text with
    version := t.minor
    headers := ⟨t.fields.map entry⟩ }

theorem request_head_append (t : RequestText) (body : Bytes) :
    Head.request (t.head ++ body) = .ok (t.request, body) := by
  rw [head_append]
  simp only [Head.request, Head.skipEmptyLines_append, Head.method_append, Head.target_append,
    Head.version_append, Head.lineEnd, fields_append t.few, Head.headerLimit, bind, Except.bind,
    filterMap_textField?]
  rfl

theorem describes_request (t : RequestText) (body : Bytes) :
    t.Describes body (t.request.withBody body) := by
  have hmethod : (t.request.withBody body).method = Method.ofName t.method.text :=
    Request.method_new _ _
  obtain ⟨hpath, htarget⟩ := Request.target_new (Method.ofName t.method.text) t.target.text
  refine ⟨?_, ?_, hpath, htarget, rfl, rfl, rfl⟩
  · rw [hmethod, Method.name_ofName]
  · intro name hcustom hknown
    rw [hmethod] at hcustom
    have hname : name = t.method.text := by
      rw [← Method.name_ofName t.method.text, hcustom]
      rfl
    exact Method.ofName_ne_custom (hname ▸ hknown) name hcustom

/-- Behind its head, a request is read as it was written; and no beginning of the head is enough. -/
theorem read_head_append (t : RequestText) (body : Bytes) :
    (∃ r, Head.read (t.head ++ body) = .ok (r, t.head.length) ∧ t.Describes body r) ∧
      ∀ part, part <+: t.head → part ≠ t.head → Head.read part = .error .incomplete := by
  constructor
  · exact ⟨_, Head.read_eq_ok_iff.mpr ⟨_, _, t.request_head_append body, rfl, by simp⟩,
      t.describes_request body⟩
  · intro part hpart hne
    have halone := t.request_head_append []
    rw [List.append_nil] at halone
    exact Head.read_eq_incomplete_iff.mpr
      (Head.exact_request.incomplete_of_prefix halone hpart hne)

/-- A method kept by its name, two question marks, and a field that is there twice. -/
def propfindText : RequestText where
  method := ⟨"PROPFIND", by decide, List.all_eq_true.mp (by decide)⟩
  target := ⟨"/a?b=?", by decide, by simp⟩
  minor := 0
  fields := [
    (⟨"X-Tag", by decide, List.all_eq_true.mp (by decide)⟩, ⟨"é \t1", by simp, by simp, by simp⟩),
    (⟨"x-tag", by decide, List.all_eq_true.mp (by decide)⟩, ⟨"", by simp, by simp, by simp⟩)]
  few := by decide

example : propfindText.head =
    Utf8.encode "PROPFIND /a?b=? HTTP/1.0\r\nX-Tag: é \t1\r\nx-tag: \r\n\r\n" := by
  decide +kernel

end RequestText

end WebApp
