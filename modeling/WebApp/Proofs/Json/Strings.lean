import Mathlib.Data.List.TakeWhile
import Mathlib.Tactic
import WebApp.Json.Reader
import WebApp.Proofs.Text.Utf8

/-!
# Reading strings that were printed

A reader that takes just the bytes that were written for a value, and stops where other bytes
follow, can be followed by another; so whole texts are read by putting readers together.  Here
this is done for strings.  The reader of a string absorbs what stands for itself in runs, while
the printer writes one character after another: the runs are put together first.
-/

namespace WebApp
namespace Json
namespace Reader

variable {α β : Type}

/-- A scan with `rest` left, after `place` bytes. -/
def ahead (place : Nat) (rest : Bytes) : Scan :=
  ⟨rest, place, place + rest.length⟩

/-- Where `rest` follows, the reader takes just these bytes and gives the value. -/
def Takes (reader : Reader α) (bytes rest : Bytes) (value : α) : Prop :=
  ∀ place, reader.run.run (ahead place (bytes ++ rest)) =
    (.ok value, ahead (place + bytes.length) rest)

theorem takes_pure (value : α) (rest : Bytes) : Takes (pure value) [] rest value :=
  fun _ => rfl

theorem Takes.bind {reader : Reader α} {next : α → Reader β} {bytes more rest : Bytes} {value : α}
    {result : β} (hreader : Takes reader bytes (more ++ rest) value)
    (hnext : Takes (next value) more rest result) :
    Takes (reader >>= next) (bytes ++ more) rest result := by
  intro place
  have hfirst := hreader place
  have hsecond := hnext (place + bytes.length)
  rw [List.append_assoc]
  simp only [ExceptT.run_bind, StateT.run_bind, hfirst]
  simp only [List.length_append, ← Nat.add_assoc]
  exact hsecond

theorem Takes.before {reader : Reader α} {next : α → Reader β} {bytes rest : Bytes} {value : α}
    {result : β} (hreader : Takes reader bytes rest value)
    (hnext : Takes (next value) [] rest result) : Takes (reader >>= next) bytes rest result := by
  rw [← List.append_nil bytes]
  exact Takes.bind hreader hnext

theorem Takes.map {reader : Reader α} {bytes rest : Bytes} {value : α}
    (hreader : Takes reader bytes rest value) (f : α → β) :
    Takes (do return f (← reader)) bytes rest (f value) :=
  hreader.before (takes_pure _ _)

theorem Takes.after {reader : Reader α} {next : α → Reader β} {bytes rest : Bytes} {value : α}
    {result : β} (hreader : Takes reader [] (bytes ++ rest) value)
    (hnext : Takes (next value) bytes rest result) : Takes (reader >>= next) bytes rest result :=
  hreader.bind hnext

theorem takes_peek (rest : Bytes) : Takes peek [] rest rest.head? :=
  fun _ => rfl

theorem takes_skip (b : UInt8) (rest : Bytes) : Takes skip [b] rest () := by
  intro place
  have hahead : ahead (place + 1) rest = ⟨rest, place + 1, place + (b :: rest).length⟩ := by
    simp [ahead, Nat.add_comm, Nat.add_left_comm]
  exact Prod.ext rfl hahead.symm

theorem takes_next (b : UInt8) (rest : Bytes) : Takes next [b] rest (some b) := by
  have hpeek : Takes peek [] ([b] ++ rest) (some b) := takes_peek _
  have hskip : Takes (do skip; return some b) [b] rest (some b) :=
    (takes_skip b rest).before (takes_pure _ _)
  exact hpeek.after hskip

theorem Takes.of_next {f : Option UInt8 → Reader α} {b : UInt8} {bytes rest : Bytes} {value : α}
    (hf : Takes (f (some b)) bytes rest value) : Takes (next >>= f) (b :: bytes) rest value :=
  (takes_next b (bytes ++ rest)).bind hf

theorem takes_rounds (rest : Bytes) : Takes rounds [] rest (rest.length + 1) := by
  intro place
  have hleft : place + rest.length - place + 1 = rest.length + 1 := by omega
  exact Prod.ext (congrArg Except.ok hleft) rfl

theorem run_takeWhile (p : UInt8 → Bool) (scan : Scan) :
    (takeWhile p).run.run scan =
      (.ok (scan.rest.takeWhile p),
        ⟨scan.rest.drop (scan.rest.takeWhile p).length, scan.place + (scan.rest.takeWhile p).length,
          scan.size⟩) :=
  rfl

theorem takes_takeWhile {p : UInt8 → Bool} {bytes rest : Bytes} (hbytes : ∀ b ∈ bytes, p b = true)
    (hrest : ∀ b ∈ rest.head?, p b = false) : Takes (takeWhile p) bytes rest bytes := by
  have htaken : (bytes ++ rest).takeWhile p = bytes := by
    rw [List.takeWhile_append_of_pos hbytes]
    cases rest with
    | nil => simp
    | cons b more =>
        rw [List.takeWhile_cons_of_neg (by simp [hrest b rfl]), List.append_nil]
  intro place
  rw [run_takeWhile]
  simp only [ahead, htaken, List.drop_left, List.length_append, Nat.add_assoc]

theorem takes_peekToken {rest : Bytes} (hrest : ∀ b ∈ rest.head?, isSpace b = false) :
    Takes peekToken [] rest rest.head? := by
  have htake : Takes (takeWhile isSpace) [] rest [] := takes_takeWhile (by simp) hrest
  exact htake.after (takes_peek rest)

theorem takes_token {b : UInt8} (hb : isSpace b = false) (rest : Bytes) :
    Takes peekToken [] (b :: rest) (some b) :=
  takes_peekToken (by simpa using hb)

theorem Takes.attempt {reader : Reader α} {bytes rest : Bytes} {value : α}
    (hreader : Takes reader bytes rest value) :
    Takes (attempt reader) bytes rest (.ok value) := by
  intro place
  have hrun := hreader place
  change (do let result ← reader.run; return Except.ok result : StateM Scan _).run _ = _
  simp only [StateT.run_bind, hrun]
  rfl

theorem Takes.placed {reader : Reader α} {bytes rest : Bytes} {value : α}
    (hreader : Takes reader bytes rest value) : Takes (placed reader) bytes rest value :=
  hreader.attempt.before (takes_pure value rest)

theorem Takes.enclosed {inside : Reader α} {finish : Reader Unit} (first : UInt8)
    {bytes last rest : Bytes} {value : α} {depth : Nat} (hdepth : 1 < depth)
    (hinside : Takes inside bytes (last ++ rest) value) (hfinish : Takes finish last rest ()) :
    Takes (enclosed depth inside finish) (first :: (bytes ++ last)) rest value := by
  unfold Reader.enclosed
  rw [if_neg (by omega)]
  have hskip : Takes skip [first] (bytes ++ last ++ rest) () := takes_skip first _
  refine hskip.bind (hinside.attempt.bind ?_)
  refine hfinish.attempt.before ?_
  exact takes_pure value rest

/-- What is read to the end of the text is its value. -/
theorem Takes.readAll_eq {reader : Reader α} {input : Bytes} {value : α}
    (hreader : Takes reader input [] value) : readAll reader input = .ok value := by
  have hend : Takes endOfText [] [] () := by
    have htoken : Takes peekToken [] [] none := takes_peekToken (by simp)
    refine htoken.before ?_
    exact takes_pure _ _
  have hreturn : Takes (do endOfText; return value) [] [] value := hend.before (takes_pure _ _)
  have hwhole : Takes (do let a ← reader; endOfText; return a) input [] value :=
    hreader.before hreturn
  have hstart : Scan.start input = ahead 0 (input ++ []) := by
    simp [Scan.start, ahead]
  unfold readAll
  rw [hstart]
  exact congrArg Prod.fst (hwhole 0)

/-! ## Strings -/

theorem takes_hexEscape {digits : Bytes} {n : Nat} (hlength : digits.length = 4)
    (hvalue : hexValue? digits = some n) (rest : Bytes) : Takes hexEscape digits rest n := by
  intro place
  have htake : (digits ++ rest).take 4 = digits := by rw [← hlength, List.take_left]
  have hdrop : (digits ++ rest).drop 4 = rest := by rw [← hlength, List.drop_left]
  have hget : ∀ scan, (get : Reader Scan).run.run scan = (pure (.ok scan, scan) : Id _) :=
    fun _ => rfl
  have hset : ∀ scan other : Scan,
      (set other : Reader PUnit).run.run scan = (pure (.ok ⟨⟩, other) : Id _) :=
    fun _ _ => rfl
  unfold hexEscape
  simp only [ExceptT.run_bind, StateT.run_bind, hget, hset, pure_bind, ahead, htake, hdrop]
  rw [hvalue, if_neg (by omega), List.length_append, ← Nat.add_assoc]
  rfl

theorem takes_codePointEscape {digits : Bytes} {n : Nat} (hlength : digits.length = 4)
    (hvalue : hexValue? digits = some n) (hn : n < 0xD800) (rest : Bytes) :
    Takes codePointEscape digits rest (Char.ofNat n) := by
  unfold codePointEscape
  refine (takes_hexEscape hlength hvalue _).before ?_
  have hlow : ¬ (decide (0xDC00 ≤ n) && decide (n ≤ 0xDFFF)) = true := by simp; omega
  have hhigh : (decide (n < 0xD800) || decide (0xDBFF < n)) = true := by simp [hn]
  rw [if_neg hlow, if_pos hhigh]
  exact takes_pure _ _

theorem takes_escape_mark (mark : UInt8) (answer : Bytes)
    (hmark : (mark, answer) ∈ [((34 : UInt8), [(34 : UInt8)]), (92, [92]), (98, [8]), (102, [12]),
      (110, [10]), (114, [13]), (116, [9])]) (rest : Bytes) : Takes escape [mark] rest answer := by
  unfold escape
  refine Takes.of_next ?_
  simp only [List.mem_cons, Prod.mk.injEq, List.not_mem_nil, or_false] at hmark
  rcases hmark with ⟨rfl, rfl⟩ | ⟨rfl, rfl⟩ | ⟨rfl, rfl⟩ | ⟨rfl, rfl⟩ | ⟨rfl, rfl⟩ | ⟨rfl, rfl⟩ |
    ⟨rfl, rfl⟩ <;> exact takes_pure _ _

def controlDigits (n : Nat) : Bytes :=
  ['0', '0', Nat.digitChar (n / 16), Nat.digitChar (n % 16)].flatMap String.utf8EncodeChar

theorem controlDigits_value :
    ∀ n < 32, (controlDigits n).length = 4 ∧ hexValue? (controlDigits n) = some n := by
  decide

theorem takes_escape_control {n : Nat} (hn : n < 32) (rest : Bytes) :
    Takes escape (117 :: controlDigits n) rest (String.utf8EncodeChar (Char.ofNat n)) := by
  obtain ⟨hlength, hvalue⟩ := controlDigits_value n hn
  have hpoint := takes_codePointEscape hlength hvalue (by omega) rest
  unfold escape
  refine Takes.of_next ?_
  exact hpoint.map String.utf8EncodeChar

/-- A character stands for itself in a string, or is escaped. -/
theorem escapedChar_cases (c : Char) :
    (escapedChar c = [c] ∧ ∀ b ∈ String.utf8EncodeChar c, isPlain b = true) ∨
      ∃ code, (escapedChar c).flatMap String.utf8EncodeChar = 92 :: code ∧
        ∀ rest, Takes escape code rest (String.utf8EncodeChar c) := by
  unfold escapedChar
  split
  · exact .inr ⟨[34], rfl, takes_escape_mark _ _ (by decide)⟩
  · exact .inr ⟨[92], rfl, takes_escape_mark _ _ (by decide)⟩
  · exact .inr ⟨[110], rfl, takes_escape_mark _ _ (by decide)⟩
  · exact .inr ⟨[114], rfl, takes_escape_mark _ _ (by decide)⟩
  · exact .inr ⟨[116], rfl, takes_escape_mark _ _ (by decide)⟩
  · exact .inr ⟨[98], rfl, takes_escape_mark _ _ (by decide)⟩
  · exact .inr ⟨[102], rfl, takes_escape_mark _ _ (by decide)⟩
  next hquote hslash _ _ _ _ _ =>
    split
    next hcontrol =>
      have hescape := takes_escape_control hcontrol
      rw [Char.ofNat_toNat] at hescape
      exact .inr ⟨_, rfl, hescape⟩
    next hprints =>
      refine .inl ⟨rfl, fun b hb => ?_⟩
      have hquote : c.toNat ≠ 34 := fun h => hquote (Char.toNat_inj.mp h)
      have hslash : c.toNat ≠ 92 := fun h => hslash (Char.toNat_inj.mp h)
      unfold isPlain
      simp only [Bool.and_eq_true, bne_iff_ne, ne_eq, decide_eq_true_eq, ← UInt8.toNat_inj,
        UInt8.le_iff_toNat_le, UInt8.reduceToNat]
      rcases Utf8.mem_utf8EncodeChar hb with ⟨-, hb⟩ | hb <;> omega

/-- A string goes on behind the bytes that stand for themselves. -/
def afterPlain (fuel : Nat) (done : Bytes) : Reader Bytes := do
  match ← next with
  | none => failHere .endInString
  | some 34 => return done.reverse
  | some 92 => stringBytes fuel ((← escape).reverseAux done)
  | some _ => failHere .controlCharacter

theorem stringBytes_succ (fuel : Nat) (done : Bytes) :
    stringBytes (fuel + 1) done =
      (do afterPlain fuel ((← takeWhile isPlain).reverseAux done)) :=
  rfl

theorem Takes.after_plain {plain : Bytes} (hplain : ∀ b ∈ plain, isPlain b = true) {fuel : Nat}
    {done bytes rest result : Bytes}
    (hrest : Takes (stringBytes (fuel + 1) (plain.reverse ++ done)) bytes rest result) :
    Takes (stringBytes (fuel + 1) done) (plain ++ bytes) rest result := by
  have hrun : ∀ done scan, (stringBytes (fuel + 1) done).run.run scan =
      (afterPlain fuel ((scan.rest.takeWhile isPlain).reverseAux done)).run.run
        ⟨scan.rest.drop (scan.rest.takeWhile isPlain).length,
          scan.place + (scan.rest.takeWhile isPlain).length, scan.size⟩ := fun _ _ => rfl
  have htaken : ∀ more, (plain ++ more).takeWhile isPlain = plain ++ more.takeWhile isPlain :=
    fun _ => List.takeWhile_append_of_pos hplain
  have hdone : ∀ more : Bytes, (plain ++ more).reverseAux done =
      more.reverseAux (plain.reverse ++ done) := by
    intro more
    simp [List.reverseAux_eq]
  have hdrop : ∀ more taken : Bytes, (plain ++ more).drop (plain ++ taken).length =
      more.drop taken.length := by
    intro more taken
    rw [List.length_append, ← List.drop_drop, List.drop_left]
  intro place
  have hplace := hrest (place + plain.length)
  rw [hrun] at hplace ⊢
  simp only [ahead, List.append_assoc, htaken, hdone, hdrop] at hplace ⊢
  simp only [List.length_append, Nat.add_assoc] at hplace ⊢
  exact hplace

theorem Takes.of_afterPlain {b : UInt8} (hb : isPlain b = false) {fuel : Nat}
    {done bytes rest result : Bytes}
    (hrest : Takes (afterPlain fuel done) (b :: bytes) rest result) :
    Takes (stringBytes (fuel + 1) done) (b :: bytes) rest result := by
  have htake : Takes (takeWhile isPlain) [] (b :: bytes ++ rest) [] :=
    takes_takeWhile (by simp) (by simpa using hb)
  rw [stringBytes_succ]
  refine htake.after ?_
  exact hrest

/-- The inside of a string that was written, up to its closing quote. -/
theorem takes_stringBytes (chars : List Char) (done rest : Bytes) {fuel : Nat}
    (hfuel : chars.length ≤ fuel) :
    Takes (stringBytes (fuel + 1) done)
      ((chars.flatMap escapedChar).flatMap String.utf8EncodeChar ++ [34]) rest
      (done.reverse ++ chars.flatMap String.utf8EncodeChar) := by
  -- A run of bytes that stand for themselves takes one round of the reader, however long it is;
  -- so the induction is on the characters, and only an escaped one costs a round.
  induction chars generalizing done fuel with
  | nil =>
      refine Takes.of_afterPlain rfl (Takes.of_next ?_)
      rw [List.flatMap_nil, List.append_nil]
      exact takes_pure _ _
  | cons c chars ih =>
      rw [List.length_cons] at hfuel
      rw [List.flatMap_cons, List.flatMap_append, List.flatMap_cons]
      rcases escapedChar_cases c with ⟨hitself, hplain⟩ | ⟨code, hcode, hescape⟩
      · have hfewer : chars.length ≤ fuel := by omega
        have hrest := ih ((String.utf8EncodeChar c).reverse ++ done) hfewer
        rw [List.reverse_append, List.reverse_reverse, List.append_assoc] at hrest
        rw [hitself, List.flatMap_singleton, List.append_assoc]
        exact hrest.after_plain hplain
      · obtain ⟨fuel, rfl⟩ : ∃ k, fuel = k + 1 := ⟨fuel - 1, by omega⟩
        have hfewer : chars.length ≤ fuel := by omega
        have hrest := ih ((String.utf8EncodeChar c).reverseAux done) hfewer
        rw [List.reverseAux_eq, List.reverse_append, List.reverse_reverse,
          List.append_assoc] at hrest
        rw [hcode, List.cons_append, List.cons_append, List.append_assoc]
        refine Takes.of_afterPlain rfl (Takes.of_next ?_)
        refine Takes.bind (hescape _) ?_
        rw [List.reverseAux_eq]
        exact hrest

/-- The bytes of a string behind its opening quote. -/
def closedBytes (s : String) : Bytes :=
  (s.toList.flatMap escapedChar).flatMap String.utf8EncodeChar ++ [34]

theorem length_le_of_escaped (chars : List Char) :
    chars.length ≤ ((chars.flatMap escapedChar).flatMap String.utf8EncodeChar).length := by
  induction chars with
  | nil => simp
  | cons c chars ih =>
      have hone : 1 ≤ ((escapedChar c).flatMap String.utf8EncodeChar).length := by
        rcases escapedChar_cases c with ⟨hitself, -⟩ | ⟨code, hcode, -⟩
        · rw [hitself, List.flatMap_singleton]
          exact List.length_pos_iff.mpr String.utf8EncodeChar_ne_nil
        · simp [hcode]
      rw [List.flatMap_cons, List.flatMap_append, List.length_append, List.length_cons]
      omega

theorem takes_string (s : String) (rest : Bytes) : Takes string (closedBytes s) rest s := by
  have hfuel : s.toList.length ≤ (closedBytes s ++ rest).length := by
    have := length_le_of_escaped s.toList
    simp only [closedBytes, List.length_append]
    omega
  have hbytes : Takes (stringBytes ((closedBytes s ++ rest).length + 1) []) (closedBytes s) rest
      (s.toList.flatMap String.utf8EncodeChar) :=
    takes_stringBytes s.toList [] rest hfuel
  have hdecode : Utf8.decode? (s.toList.flatMap String.utf8EncodeChar) = some s :=
    Utf8.decode?_encode s
  unfold string
  refine (takes_rounds _).after (hbytes.before ?_)
  rw [hdecode]
  exact takes_pure _ _

end Reader
end Json
end WebApp
