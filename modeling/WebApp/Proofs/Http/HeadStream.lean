import Mathlib.Data.List.TakeWhile
import Mathlib.Tactic
import WebApp.Http.Head

/-!
# Reading a head that comes in pieces

A reader of bytes streams when it settles on its own bytes: once it does not ask for more,
bytes that follow change neither its value nor its fault, and what it leaves is the end of
what it was given.  It is exact when it looks at no byte behind those that it takes.  All parts
of the head reader stream, and all but the one for empty lines are exact; hence the head reader
streams and is exact, and a head is complete with its last byte.
-/

namespace WebApp
namespace Head

variable {α β : Type}

/-- A result when more bytes follow those that it was read from. -/
def extend (more : Bytes) : Except HeadFault (α × Bytes) → Except HeadFault (α × Bytes)
  | .ok (value, rest) => .ok (value, rest ++ more)
  | .error fault => .error fault

structure Streams (reader : Bytes → Except HeadFault (α × Bytes)) : Prop where
  settled : ∀ bytes more, reader bytes ≠ .error .incomplete →
    reader (bytes ++ more) = extend more (reader bytes)
  suffix : ∀ bytes value rest, reader bytes = .ok (value, rest) → rest <:+ bytes

/-- Bytes that end before the last one that is taken are too few. -/
theorem Streams.incomplete_of_prefix {reader : Bytes → Except HeadFault (α × Bytes)}
    (hreader : Streams reader) {whole part : Bytes} {value : α}
    (hwhole : reader whole = .ok (value, [])) (hpart : part <+: whole) (hne : part ≠ whole) :
    reader part = .error .incomplete := by
  obtain ⟨more, rfl⟩ := hpart
  by_contra hdecided
  have hsettled := hreader.settled part more hdecided
  rw [hwhole] at hsettled
  cases hread : reader part with
  | error fault => simp [hread, extend] at hsettled
  | ok found =>
      simp only [hread, extend, Except.ok.injEq, Prod.mk.injEq, List.nil_eq,
        List.append_eq_nil_iff] at hsettled
      simp [hsettled.2.2] at hne

/-- One reader after another, the second chosen by the value of the first. -/
theorem Streams.andThen {reader : Bytes → Except HeadFault (α × Bytes)}
    {next : α → Bytes → Except HeadFault (β × Bytes)}
    (hreader : Streams reader) (hnext : ∀ value, Streams (next value)) :
    Streams fun bytes => reader bytes >>= fun found => next found.1 found.2 := by
  constructor
  · intro bytes more hdecided
    cases hread : reader bytes with
    | error fault =>
        have hfault : reader bytes ≠ .error .incomplete := by
          intro hincomplete
          apply hdecided
          simp [hincomplete, bind, Except.bind]
        simp [hreader.settled bytes more hfault, hread, extend, bind, Except.bind]
    | ok found =>
        obtain ⟨value, rest⟩ := found
        have hok : reader bytes ≠ .error .incomplete := by simp [hread]
        have hrest : next value rest ≠ .error .incomplete := by
          simpa [hread, bind, Except.bind] using hdecided
        simp [hreader.settled bytes more hok, hread, extend, bind, Except.bind,
          (hnext value).settled rest more hrest]
  · intro bytes value rest hread
    cases hfirst : reader bytes with
    | error fault => simp [hfirst, bind, Except.bind] at hread
    | ok found =>
        obtain ⟨between, middle⟩ := found
        have hsecond : next between middle = .ok (value, rest) := by
          simpa [hfirst, bind, Except.bind] using hread
        exact ((hnext between).suffix _ _ _ hsecond).trans (hreader.suffix _ _ _ hfirst)

/-- A reader whose values are passed through a function. -/
theorem Streams.map {reader : Bytes → Except HeadFault (α × Bytes)} (hreader : Streams reader)
    (f : α → β) : Streams fun bytes => (fun found => (f found.1, found.2)) <$> reader bytes := by
  constructor
  · intro bytes more hdecided
    have hread : reader bytes ≠ .error .incomplete := by
      intro hincomplete
      apply hdecided
      simp [hincomplete, Functor.map, Except.map]
    rw [hreader.settled bytes more hread]
    cases reader bytes <;> rfl
  · intro bytes value rest hmap
    cases hread : reader bytes with
    | error fault => simp [hread, Functor.map, Except.map] at hmap
    | ok found =>
        obtain ⟨first, left⟩ := found
        simp only [hread, Functor.map, Except.map, Except.ok.injEq, Prod.mk.injEq] at hmap
        obtain ⟨rfl, rfl⟩ := hmap
        exact hreader.suffix _ _ _ hread

/-- A reader that takes nothing. -/
theorem streams_ok (value : α) : Streams fun bytes => .ok (value, bytes) := by
  constructor
  · intro bytes more _
    rfl
  · intro bytes value rest hread
    simp only [Except.ok.injEq, Prod.mk.injEq] at hread
    exact hread.2 ▸ List.suffix_refl _

/-- A reader that refuses. -/
theorem streams_error (fault : HeadFault) :
    Streams (α := α) fun _ => .error fault := by
  constructor
  · intro bytes more _
    rfl
  · intro bytes value rest hread
    simp at hread

/-- A reader chosen by the first byte. -/
def firstByte (next : UInt8 → Bytes → Except HeadFault (α × Bytes)) :
    Bytes → Except HeadFault (α × Bytes)
  | [] => .error .incomplete
  | b :: rest => next b rest

theorem streams_firstByte {next : UInt8 → Bytes → Except HeadFault (α × Bytes)}
    (hnext : ∀ b, Streams (next b)) : Streams (firstByte next) := by
  constructor
  · intro bytes more hdecided
    cases bytes with
    | nil => simp [firstByte] at hdecided
    | cons b rest => exact (hnext b).settled rest more hdecided
  · intro bytes value rest hread
    cases bytes with
    | nil => simp [firstByte] at hread
    | cons b left => exact ((hnext b).suffix _ _ _ hread).trans (List.suffix_cons b left)

/-- A reader chosen by the first byte, which it has still to take. -/
theorem streams_peek {next : UInt8 → Bytes → Except HeadFault (α × Bytes)}
    (hnext : ∀ b, Streams (next b)) :
    Streams fun bytes => firstByte (fun b _ => next b bytes) bytes := by
  constructor
  · intro bytes more hdecided
    cases bytes with
    | nil => simp [firstByte] at hdecided
    | cons b rest => exact (hnext b).settled (b :: rest) more hdecided
  · intro bytes value rest hread
    cases bytes with
    | nil => simp [firstByte] at hread
    | cons b left => exact (hnext b).suffix _ _ _ hread

/-- A reader of what stands behind the bytes that `p` holds of.  Where these reach the end, more
of them may follow. -/
theorem Streams.afterSpan (next : Bytes → Bytes → Except HeadFault (α × Bytes))
    (hnext : ∀ word, Streams (next word)) (hnil : ∀ word, next word [] = .error .incomplete)
    (p : UInt8 → Bool) : Streams fun bytes => next (bytes.takeWhile p) (bytes.dropWhile p) := by
  constructor
  · intro bytes more hdecided
    have hdrop : bytes.dropWhile p ≠ [] := by
      intro hempty
      apply hdecided
      rw [hempty, hnil]
    have hlength : (bytes.takeWhile p).length ≠ bytes.length := by
      have hsplit := congrArg List.length
        (List.takeWhile_append_dropWhile (p := p) (l := bytes))
      have hpos := List.length_pos_iff.mpr hdrop
      rw [List.length_append] at hsplit
      omega
    have htail : (bytes ++ more).dropWhile p = bytes.dropWhile p ++ more := by
      simp [List.dropWhile_append, hdrop]
    rw [List.takeWhile_append, if_neg hlength, htail]
    exact (hnext _).settled _ more hdecided
  · intro bytes value rest hread
    exact ((hnext _).suffix _ _ _ hread).trans (List.dropWhile_suffix p)

/-! ## Where a reader ends -/

/-- A reader that looks at no byte behind those that it takes. -/
structure Exact (reader : Bytes → Except HeadFault (α × Bytes)) : Prop extends Streams reader where
  alone : ∀ front value rest, reader (front ++ rest) = .ok (value, rest) →
    reader front = .ok (value, [])

variable {reader : Bytes → Except HeadFault (α × Bytes)}

theorem Exact.andThen {next : α → Bytes → Except HeadFault (β × Bytes)} (hreader : Exact reader)
    (hnext : ∀ value, Exact (next value)) :
    Exact fun bytes => reader bytes >>= fun found => next found.1 found.2 := by
  refine ⟨hreader.toStreams.andThen fun value => (hnext value).toStreams, ?_⟩
  intro front value rest hread
  cases hfirst : reader (front ++ rest) with
  | error fault => simp [hfirst, bind, Except.bind] at hread
  | ok found =>
      obtain ⟨between, middle⟩ := found
      have hsecond : next between middle = .ok (value, rest) := by
        simpa [hfirst, bind, Except.bind] using hread
      obtain ⟨taken, htaken⟩ := hreader.suffix _ _ _ hfirst
      obtain ⟨more, rfl⟩ := (hnext between).suffix _ _ _ hsecond
      obtain rfl : taken ++ more = front := by
        rw [← List.append_assoc] at htaken
        exact List.append_cancel_right htaken
      have halone := hreader.alone taken between (more ++ rest) (by simpa using hfirst)
      have hmore := hreader.settled taken more (by simp [halone])
      simp [hmore, halone, extend, bind, Except.bind, (hnext between).alone _ _ _ hsecond]

theorem Exact.map (hreader : Exact reader) (f : α → β) :
    Exact fun bytes => (fun found => (f found.1, found.2)) <$> reader bytes := by
  refine ⟨hreader.toStreams.map f, ?_⟩
  intro front value rest hmap
  cases hread : reader (front ++ rest) with
  | error fault => simp [hread, Functor.map, Except.map] at hmap
  | ok found =>
      obtain ⟨first, left⟩ := found
      simp only [hread, Functor.map, Except.map, Except.ok.injEq, Prod.mk.injEq] at hmap
      obtain ⟨rfl, rfl⟩ := hmap
      simp [hreader.alone _ _ _ hread, Functor.map, Except.map]

theorem exact_ok (value : α) : Exact fun bytes => .ok (value, bytes) := by
  refine ⟨streams_ok value, ?_⟩
  intro front other rest hread
  simp only [Except.ok.injEq, Prod.mk.injEq, List.append_left_eq_self] at hread
  obtain ⟨rfl, rfl⟩ := hread
  rfl

theorem exact_error (fault : HeadFault) : Exact (α := α) fun _ => .error fault :=
  ⟨streams_error fault, fun _ _ _ hread => by simp at hread⟩

theorem exact_firstByte {next : UInt8 → Bytes → Except HeadFault (α × Bytes)}
    (hnext : ∀ b, Exact (next b)) : Exact (firstByte next) := by
  refine ⟨streams_firstByte fun b => (hnext b).toStreams, ?_⟩
  intro front value rest hread
  cases front with
  | nil =>
      cases rest with
      | nil => simp [firstByte] at hread
      | cons b rest =>
          have hle := ((hnext b).suffix _ _ _ hread).length_le
          simp at hle
  | cons b front => exact (hnext b).alone front value rest hread

theorem exact_peek {next : UInt8 → Bytes → Except HeadFault (α × Bytes)}
    (hnext : ∀ b, Exact (next b)) (hnil : ∀ b, next b [] = .error .incomplete) :
    Exact fun bytes => firstByte (fun b _ => next b bytes) bytes := by
  refine ⟨streams_peek fun b => (hnext b).toStreams, ?_⟩
  intro front value rest hread
  cases front with
  | nil =>
      cases rest with
      | nil => simp [firstByte] at hread
      | cons b rest =>
          have hnone := (hnext b).alone [] value (b :: rest) hread
          rw [hnil] at hnone
          simp at hnone
  | cons b front => exact (hnext b).alone (b :: front) value rest hread

/-- Behind a span there has to be another byte, so a reader of what follows it ends there. -/
theorem Exact.afterSpan (next : Bytes → Bytes → Except HeadFault (α × Bytes))
    (hnext : ∀ word, Exact (next word)) (hnil : ∀ word, next word [] = .error .incomplete)
    (p : UInt8 → Bool) : Exact fun bytes => next (bytes.takeWhile p) (bytes.dropWhile p) := by
  refine ⟨Streams.afterSpan next (fun word => (hnext word).toStreams) hnil p, ?_⟩
  intro front value rest hread
  by_cases hspan : front.dropWhile p = []
  · -- The span would go on behind the bytes that are taken.
    have hall : ∀ b ∈ front, p b = true := List.dropWhile_eq_nil_iff.mp hspan
    rw [List.dropWhile_append_of_pos hall] at hread
    have hwhole : rest.dropWhile p = rest :=
      (List.dropWhile_suffix p).eq_of_length_le ((hnext _).suffix _ _ _ hread).length_le
    rw [hwhole] at hread
    have hnone := (hnext _).alone [] value rest hread
    rw [hnil] at hnone
    simp at hnone
  · have hlength : (front.takeWhile p).length ≠ front.length := by
      intro hlength
      apply hspan
      have hsplit := congrArg List.length
        (List.takeWhile_append_dropWhile (p := p) (l := front))
      rw [List.length_append] at hsplit
      exact List.length_eq_zero_iff.mp (by omega)
    have hdrop : (front ++ rest).dropWhile p = front.dropWhile p ++ rest := by
      simp [List.dropWhile_append, hspan]
    rw [List.takeWhile_append, if_neg hlength, hdrop] at hread
    exact (hnext _).alone _ _ _ hread

/-! ## The parts of a head -/

theorem streams_skipEmptyLines : Streams skipEmptyLines := by
  constructor
  · intro bytes more hdecided
    fun_induction skipEmptyLines bytes with
    | case1 => simp at hdecided
    | case2 rest ih => simpa [skipEmptyLines] using ih hdecided
    | case3 => simp at hdecided
    | case4 tail hnot hne =>
        obtain _ | ⟨b, rest⟩ := tail
        · simp at hne
        · have hb : b ≠ 10 := by
            rintro rfl
            exact hnot rest rfl
          simp [skipEmptyLines, extend, hb]
    | case5 rest ih => simpa [skipEmptyLines] using ih hdecided
    | case6 bytes hne _ _ hreturn hline =>
        obtain _ | ⟨b, rest⟩ := bytes
        · simp at hne
        · have hb : b ≠ 13 := by
            rintro rfl
            exact hreturn rest rfl
          have hb' : b ≠ 10 := by
            rintro rfl
            exact hline rest rfl
          simp [skipEmptyLines, extend, hb, hb']
  · intro bytes value rest hread
    fun_induction skipEmptyLines bytes with
    | case1 => simp at hread
    | case2 left ih => exact (ih hread).trans ⟨[13, 10], rfl⟩
    | case3 => simp at hread
    | case4 => simp at hread
    | case5 left ih => exact (ih hread).trans ⟨[10], rfl⟩
    | case6 => simp_all

theorem lineEnd_eq (fault : HeadFault) :
    lineEnd fault = firstByte fun b rest =>
      if b = 13 then
        firstByte (fun c left => if c = 10 then .ok ((), left) else .error fault) rest
      else if b = 10 then .ok ((), rest) else .error fault := by
  funext bytes
  rcases bytes with _ | ⟨b, _ | ⟨c, rest⟩⟩
  · rfl
  · by_cases hreturn : b = 13
    · simp [lineEnd, firstByte, hreturn]
    · by_cases hb : b = 10
      · simp [lineEnd, firstByte, hb]
      · simp [lineEnd, firstByte, hreturn, hb]
  · by_cases hreturn : b = 13
    · by_cases hc : c = 10
      · simp [lineEnd, firstByte, hreturn, hc]
      · simp [lineEnd, firstByte, hreturn, hc]
    · by_cases hb : b = 10
      · simp [lineEnd, firstByte, hb]
      · simp [lineEnd, firstByte, hreturn, hb]

theorem exact_lineEnd (fault : HeadFault) : Exact (lineEnd fault) := by
  have hfeed : ∀ b : UInt8, Exact fun rest : Bytes =>
      if b = 10 then .ok ((), rest) else .error fault := by
    intro b
    by_cases hb : b = 10
    · simpa only [if_pos hb] using exact_ok ()
    · simpa only [if_neg hb] using exact_error fault
  rw [lineEnd_eq]
  refine exact_firstByte fun b => ?_
  by_cases hreturn : b = 13
  · simp only [if_pos hreturn]
    exact exact_firstByte hfeed
  · simp only [if_neg hreturn]
    exact hfeed b

theorem exact_wordBefore (p : UInt8 → Bool) : Exact (wordBefore p) := by
  have hbyte : ∀ (word : Bytes) (b : UInt8), Exact fun rest : Bytes =>
      if b = 32 ∧ word ≠ [] then .ok (word, rest) else .error .token := by
    intro word b
    by_cases h : b = 32 ∧ word ≠ []
    · simpa only [if_pos h] using exact_ok word
    · simpa only [if_neg h] using exact_error .token
  exact Exact.afterSpan _ (fun word => exact_firstByte (hbyte word)) (fun _ => rfl) p

theorem exact_method : Exact method :=
  (exact_wordBefore isToken).map fun word => Method.ofName (asciiText word)

theorem exact_target : Exact target := by
  have htext : ∀ word, Exact fun rest : Bytes =>
      (Utf8.decode? word).elim (.error .token) fun s => .ok (s, rest) := by
    intro word
    cases Utf8.decode? word with
    | none => exact exact_error .token
    | some s => exact exact_ok s
  have htarget : target = fun bytes => wordBefore isTarget bytes >>= fun found =>
      (Utf8.decode? found.1).elim (.error .token) fun s => .ok (s, found.2) := by
    funext bytes
    simp only [target]
    cases wordBefore isTarget bytes with
    | error fault => rfl
    | ok found => cases hword : Utf8.decode? found.1 <;> simp [bind, Except.bind, hword] <;> rfl
  rw [htarget]
  exact (exact_wordBefore isTarget).andThen htext

theorem exact_minorVersion : Exact minorVersion := by
  have hdigit : minorVersion = firstByte fun b rest =>
      if b = 48 then .ok (0, rest) else if b = 49 then .ok (1, rest) else .error .version := by
    funext bytes
    rcases bytes with _ | ⟨b, rest⟩
    · rfl
    · by_cases hzero : b = 48
      · simp [minorVersion, firstByte, hzero]
      · by_cases hone : b = 49
        · simp [minorVersion, firstByte, hone]
        · simp [minorVersion, firstByte, hzero, hone]
  rw [hdigit]
  refine exact_firstByte fun b => ?_
  by_cases hzero : b = 48
  · simpa only [if_pos hzero] using exact_ok 0
  · by_cases hone : b = 49
    · simpa only [if_neg hzero, if_pos hone] using exact_ok 1
    · simpa only [if_neg hzero, if_neg hone] using exact_error .version

theorem streams_version : Streams version := by
  constructor
  · intro bytes more hdecided
    by_cases hshort : bytes.length < 8
    · have hno : ¬ bytes.take 7 <+: Utf8.encode "HTTP/1." := by
        intro hprefix
        apply hdecided
        simp [version, hshort, hprefix]
      have hno' : ¬ (bytes ++ more).take 7 <+: Utf8.encode "HTTP/1." := by
        intro hprefix
        exact hno (((List.prefix_append bytes more).take 7).trans hprefix)
      have hne : (bytes ++ more).take 7 ≠ Utf8.encode "HTTP/1." := by
        intro heq
        exact hno' (heq ▸ List.prefix_refl _)
      simp [version, hshort, hno, hno', hne, extend]
    · have htake : (bytes ++ more).take 7 = bytes.take 7 :=
        List.take_append_of_le_length (by omega)
      have hdrop : (bytes ++ more).drop 7 = bytes.drop 7 ++ more :=
        List.drop_append_of_le_length (by omega)
      have hlong : ¬ (bytes ++ more).length < 8 := by
        simp only [List.length_append]
        omega
      simp only [version, if_neg hshort, if_neg hlong, htake, hdrop]
      by_cases hcommon : bytes.take 7 = Utf8.encode "HTTP/1."
      · simp only [if_pos hcommon]
        exact exact_minorVersion.settled _ more (by
          simpa [version, hshort, hcommon] using hdecided)
      · simp [hcommon, extend]
  · intro bytes value rest hread
    by_cases hshort : bytes.length < 8
    · simp only [version, if_pos hshort] at hread
      split at hread <;> simp at hread
    · by_cases hcommon : bytes.take 7 = Utf8.encode "HTTP/1."
      · simp only [version, if_neg hshort, if_pos hcommon] at hread
        exact (exact_minorVersion.suffix _ _ _ hread).trans (List.drop_suffix 7 bytes)
      · simp [version, hshort, hcommon] at hread

theorem exact_version : Exact version := by
  refine ⟨streams_version, ?_⟩
  intro front value rest hread
  by_cases hshort : (front ++ rest).length < 8
  · simp only [version, if_pos hshort] at hread
    split at hread <;> simp at hread
  · by_cases hcommon : (front ++ rest).take 7 = Utf8.encode "HTTP/1."
    · simp only [version, if_neg hshort, if_pos hcommon] at hread
      have hle := (exact_minorVersion.suffix _ _ _ hread).length_le
      simp only [List.length_drop, List.length_append] at hle hshort
      have hlong : 7 ≤ front.length := by omega
      rw [List.drop_append_of_le_length hlong] at hread
      have hminor := exact_minorVersion.alone _ _ _ hread
      have henough : ¬ front.length < 8 := by
        intro hless
        have hnone : front.drop 7 = [] := List.drop_eq_nil_of_le (by omega)
        rw [hnone] at hminor
        simp [minorVersion] at hminor
      rw [List.take_append_of_le_length hlong] at hcommon
      simp only [version, if_neg henough, if_pos hcommon, hminor]
    · simp only [version, if_neg hshort, if_neg hcommon, reduceCtorEq] at hread

theorem exact_fieldValue : Exact fieldValue := by
  have hvalue : Exact fun bytes =>
      lineEnd .headerValue (bytes.dropWhile isValue) >>= fun found =>
        pure (trimEnd (bytes.takeWhile isValue), found.2) := by
    refine Exact.afterSpan (fun value bytes =>
      lineEnd .headerValue bytes >>= fun found => pure (trimEnd value, found.2)) ?_
      (fun _ => rfl) isValue
    intro value
    exact (exact_lineEnd .headerValue).andThen fun _ => exact_ok (trimEnd value)
  exact Exact.afterSpan _ (fun _ => hvalue) (fun _ => rfl) isBlank

theorem exact_field : Exact field := by
  have hname : ∀ name : Bytes, Exact (firstByte fun b rest =>
      if b ≠ 58 ∨ name = [] then .error .headerName
      else fieldValue rest >>= fun found => pure ((asciiText name, found.1), found.2)) := by
    intro name
    refine exact_firstByte fun b => ?_
    by_cases h : b ≠ 58 ∨ name = []
    · simpa only [if_pos h] using exact_error .headerName
    · simp only [if_neg h]
      exact exact_fieldValue.andThen fun value => exact_ok (asciiText name, value)
  exact Exact.afterSpan _ hname (fun _ => rfl) isToken

/-- No fields up to the empty line, or what `next` reads. -/
theorem exact_orEmpty {next : Bytes → Except HeadFault (List (String × Bytes) × Bytes)}
    (hnext : Exact next) (hnil : next [] = .error .incomplete) :
    Exact fun bytes => firstByte (fun b _ =>
      if b = 13 ∨ b = 10 then lineEnd .newLine bytes >>= fun found => pure ([], found.2)
      else next bytes) bytes := by
  refine exact_peek (fun b => ?_) fun b => ?_
  · by_cases hb : b = 13 ∨ b = 10
    · simp only [if_pos hb]
      exact (exact_lineEnd .newLine).andThen fun _ => exact_ok []
    · simpa only [if_neg hb] using hnext
  · by_cases hb : b = 13 ∨ b = 10
    · rw [if_pos hb]
      rfl
    · rw [if_neg hb, hnil]

theorem exact_fields (limit : Nat) : Exact (fields limit) := by
  induction limit with
  | zero =>
      have hfields : fields 0 = fun bytes => firstByte (fun b _ =>
          if b = 13 ∨ b = 10 then lineEnd .newLine bytes >>= fun found => pure ([], found.2)
          else field bytes >>= fun _ => .error .tooManyHeaders) bytes := by
        funext bytes
        cases bytes <;> rfl
      rw [hfields]
      exact exact_orEmpty (exact_field.andThen fun _ => exact_error .tooManyHeaders) rfl
  | succ limit ih =>
      have hfields : fields (limit + 1) = fun bytes => firstByte (fun b _ =>
          if b = 13 ∨ b = 10 then lineEnd .newLine bytes >>= fun found => pure ([], found.2)
          else field bytes >>= fun entry => fields limit entry.2 >>= fun entries =>
            pure (entry.1 :: entries.1, entries.2)) bytes := by
        funext bytes
        cases bytes <;> rfl
      rw [hfields]
      exact exact_orEmpty (exact_field.andThen fun entry =>
        ih.andThen fun entries => exact_ok (entry :: entries)) rfl

/-- A head as it stands on the wire, with the bytes of all its values. -/
structure Raw where
  method : Method
  target : String
  version : Nat
  fields : List (String × Bytes)
deriving DecidableEq, Repr

/-- The request that a head describes, still without its body. -/
def Raw.request (head : Raw) : Request :=
  { Request.new head.method head.target with
    version := head.version
    headers := ⟨head.fields.filterMap textField?⟩ }

/-- The request line and the fields. -/
def lines (bytes : Bytes) : Except HeadFault (Raw × Bytes) := do
  let (m, rest) ← method bytes
  let (t, rest) ← target rest
  let (v, rest) ← version rest
  let (_, rest) ← lineEnd .newLine rest
  let (entries, rest) ← fields headerLimit rest
  return (⟨m, t, v, entries⟩, rest)

/-- The head, behind the empty lines before it. -/
def raw (bytes : Bytes) : Except HeadFault (Raw × Bytes) := do
  let (_, rest) ← skipEmptyLines bytes
  lines rest

theorem request_eq_map_raw (bytes : Bytes) :
    request bytes = (fun found => (found.1.request, found.2)) <$> raw bytes := by
  simp only [request, raw, lines, map_bind]
  rfl

theorem exact_lines : Exact lines := by
  have h := exact_method.andThen fun m =>
    exact_target.andThen fun t =>
    exact_version.andThen fun v =>
    (exact_lineEnd .newLine).andThen fun _ =>
    (exact_fields headerLimit).andThen fun entries =>
    exact_ok (Raw.mk m t v entries)
  exact h

/-- Where the bytes are nothing but empty lines, others that follow are all that is left. -/
theorem length_le_of_skipEmptyLines {front rest left : Bytes}
    (hfront : skipEmptyLines front = .error .incomplete)
    (hskip : skipEmptyLines (front ++ rest) = .ok ((), left)) : left.length ≤ rest.length := by
  fun_induction skipEmptyLines front with
  | case1 => exact (streams_skipEmptyLines.suffix _ _ _ hskip).length_le
  | case2 _ ih => exact ih hfront (by simpa [skipEmptyLines] using hskip)
  | case3 =>
      rcases rest with _ | ⟨b, rest⟩
      · simp [skipEmptyLines] at hskip
      · by_cases hb : b = 10
        · subst hb
          have hle := (streams_skipEmptyLines.suffix rest () left hskip).length_le
          exact hle.trans (Nat.le_succ _)
        · simp [skipEmptyLines, hb] at hskip
  | case4 => simp at hfront
  | case5 _ ih => exact ih hfront (by simpa [skipEmptyLines] using hskip)
  | case6 => simp at hfront

theorem exact_raw : Exact raw := by
  refine ⟨streams_skipEmptyLines.andThen fun _ => exact_lines.toStreams, ?_⟩
  intro front value rest hread
  cases hskip : skipEmptyLines (front ++ rest) with
  | error fault => simp [raw, hskip, bind, Except.bind] at hread
  | ok found =>
      obtain ⟨_, middle⟩ := found
      have hlines : lines middle = .ok (value, rest) := by
        simpa [raw, hskip, bind, Except.bind] using hread
      obtain ⟨more, rfl⟩ := exact_lines.suffix _ _ _ hlines
      have halone := exact_lines.alone _ _ _ hlines
      have hmore : more ≠ [] := by
        rintro rfl
        simp [lines, method, wordBefore, bind, Except.bind] at halone
      have hdecided : skipEmptyLines front ≠ .error .incomplete := by
        intro hincomplete
        have hle := length_le_of_skipEmptyLines hincomplete hskip
        have hpos := List.length_pos_iff.mpr hmore
        rw [List.length_append] at hle
        omega
      have hsettled := streams_skipEmptyLines.settled front rest hdecided
      rw [hskip] at hsettled
      cases hfront : skipEmptyLines front with
      | error fault => simp [hfront, extend] at hsettled
      | ok found =>
          simp only [hfront, extend, Except.ok.injEq, Prod.mk.injEq, true_and,
            List.append_cancel_right_eq] at hsettled
          simp [raw, hfront, bind, Except.bind, ← hsettled, halone]

theorem exact_request : Exact request := by
  rw [funext request_eq_map_raw]
  exact exact_raw.map Raw.request

/-! ## Whole requests -/

theorem read_eq_ok_iff {bytes : Bytes} {r : Request} {start : Nat} :
    read bytes = .ok (r, start) ↔
      ∃ found body, request bytes = .ok (found, body) ∧
        found.withBody body = r ∧ bytes.length - body.length = start := by
  cases hrequest : request bytes with
  | error fault => simp [read, hrequest, bind, Except.bind]
  | ok result =>
      obtain ⟨found, body⟩ := result
      constructor
      · intro hread
        exact ⟨found, body, rfl, by
          simpa [read, hrequest, bind, Except.bind, pure, Except.pure] using hread⟩
      · rintro ⟨_, _, heq, hbody, hstart⟩
        simp only [Except.ok.injEq, Prod.mk.injEq] at heq
        obtain ⟨rfl, rfl⟩ := heq
        simp [read, hrequest, hbody, hstart, bind, Except.bind, pure, Except.pure]

theorem read_eq_incomplete_iff {bytes : Bytes} :
    read bytes = .error .incomplete ↔ request bytes = .error .incomplete := by
  cases hrequest : request bytes with
  | error fault => simp [read, hrequest, bind, Except.bind]
  | ok result => simp [read, hrequest, bind, Except.bind, pure, Except.pure]

theorem request_nil : request [] = .error .incomplete := rfl

theorem read_nil : read [] = .error .incomplete := rfl

/-- The head and the body make up the bytes. -/
theorem start_add_length_body {bytes : Bytes} {r : Request} {start : Nat}
    (hread : read bytes = .ok (r, start)) : start + r.body.length = bytes.length := by
  obtain ⟨found, body, hrequest, rfl, rfl⟩ := read_eq_ok_iff.mp hread
  have hle := (exact_request.suffix _ _ _ hrequest).length_le
  simp only [Request.withBody]
  omega

theorem body_eq_drop {bytes : Bytes} {r : Request} {start : Nat}
    (hread : read bytes = .ok (r, start)) : r.body = bytes.drop start := by
  obtain ⟨found, body, hrequest, rfl, rfl⟩ := read_eq_ok_iff.mp hread
  exact List.suffix_iff_eq_drop.mp (exact_request.suffix _ _ _ hrequest)

end Head
end WebApp
