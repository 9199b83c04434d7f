import Mathlib.Data.List.TakeWhile
import Mathlib.Tactic
import WebApp.Text.Utf8

/-!
# Reading what was written in UTF-8

The bytes that write a character are read as that character, whatever follows them, so that
every text is read back from its bytes.  A character is read from no other bytes: the range of the
second byte leaves out surrogates, long forms and code points that are none.
-/

namespace WebApp
namespace Utf8

theorem toNat_ofNat {n : Nat} (hn : n < 256) : (UInt8.ofNat n).toNat = n := by
  rw [UInt8.toNat_ofNat', Nat.mod_eq_of_lt (by simpa using hn)]

theorem toNat_tail (n : Nat) : (UInt8.ofNat (n % 64 + 128)).toNat = n % 64 + 128 :=
  toNat_ofNat (by omega)

theorem isTail_tail (n : Nat) : isTail (UInt8.ofNat (n % 64 + 128)) = true := by
  unfold isTail
  simp only [Bool.and_eq_true, decide_eq_true_eq, UInt8.le_iff_toNat_le, toNat_tail,
    UInt8.reduceToNat]
  omega

/-- The second byte is in the range that the first one asks for. -/
def Fits (lead second : UInt8) : Prop :=
  (secondRange lead).1 ≤ second ∧ second ≤ (secondRange lead).2

theorem fits_iff (lead second : UInt8) :
    Fits lead second ↔
      (lead.toNat = 0xE0 → 0xA0 ≤ second.toNat) ∧ (lead.toNat = 0xED → second.toNat ≤ 0x9F) ∧
        (lead.toNat = 0xF0 → 0x90 ≤ second.toNat) ∧ (lead.toNat = 0xF4 → second.toNat ≤ 0x8F) ∧
        0x80 ≤ second.toNat ∧ second.toNat ≤ 0xBF := by
  unfold Fits secondRange
  simp only [beq_iff_eq, ← UInt8.toNat_inj, UInt8.reduceToNat]
  split_ifs <;> simp only [UInt8.le_iff_toNat_le, UInt8.reduceToNat] <;> omega

theorem matchedTail_zero (lead : UInt8) (rest : Bytes) : matchedTail lead 0 rest = 0 := by
  cases rest <;> simp [matchedTail]

theorem matchedTail_cons {lead second : UInt8} (hfits : Fits lead second) {tail : Bytes}
    (htail : ∀ b ∈ tail, isTail b = true) (rest : Bytes) :
    matchedTail lead (tail.length + 1) (second :: (tail ++ rest)) = tail.length + 1 := by
  unfold matchedTail
  have hrange : (decide ((secondRange lead).1 ≤ second) && decide (second ≤ (secondRange lead).2)) =
      true := by
    simpa [Fits] using hfits
  simp only [Nat.add_eq_zero_iff, Nat.one_ne_zero, and_false, if_false, hrange, if_true,
    Nat.add_sub_cancel, List.take_left]
  rw [List.takeWhile_eq_self_iff.mpr htail, Nat.add_comm]

theorem first_one {lead : UInt8} {n : Nat} (hlead : lead.toNat = n) (hn : n < 128) (rest : Bytes) :
    first lead rest = (some (Char.ofNat n), 0) := by
  have hcount : tailCount lead = some 0 := by
    unfold tailCount
    simp only [UInt8.le_iff_toNat_le, UInt8.reduceToNat]
    rw [if_pos (by omega)]
  simp [first, hcount, matchedTail_zero, codePoint, hlead]

theorem first_cons {lead second : UInt8} {tail : Bytes}
    (hcount : tailCount lead = some (tail.length + 1)) (hfits : Fits lead second)
    (htail : ∀ b ∈ tail, isTail b = true) (rest : Bytes) :
    first lead (second :: tail ++ rest) =
      (some (Char.ofNat (codePoint lead (second :: tail))), tail.length + 1) := by
  have htake : (second :: tail ++ rest).take (tail.length + 1) = second :: tail := by simp
  simp only [first, hcount]
  rw [List.cons_append, matchedTail_cons hfits htail, if_pos rfl, ← List.cons_append, htake]

theorem tailCount_eq {lead : UInt8} {count : Nat}
    (hlead : count = 1 ∧ 0xC2 ≤ lead.toNat ∧ lead.toNat ≤ 0xDF ∨
      count = 2 ∧ 0xE0 ≤ lead.toNat ∧ lead.toNat ≤ 0xEF ∨
      count = 3 ∧ 0xF0 ≤ lead.toNat ∧ lead.toNat ≤ 0xF4) : tailCount lead = some count := by
  unfold tailCount
  simp only [UInt8.le_iff_toNat_le, UInt8.reduceToNat, Bool.and_eq_true, decide_eq_true_eq]
  rcases hlead with ⟨rfl, _, _⟩ | ⟨rfl, _, _⟩ | ⟨rfl, _, _⟩
  · rw [if_neg (by omega), if_pos (by omega)]
  · rw [if_neg (by omega), if_neg (by omega), if_pos (by omega)]
  · rw [if_neg (by omega), if_neg (by omega), if_neg (by omega), if_pos (by omega)]

/-- The bytes that write a character are read as that character. -/
theorem first_utf8EncodeChar (c : Char) (rest : Bytes) :
    ∃ lead tail, String.utf8EncodeChar c = lead :: tail ∧
      first lead (tail ++ rest) = (some c, tail.length) := by
  have hvalid : c.val.toNat < 0xD800 ∨ 0xDFFF < c.val.toNat ∧ c.val.toNat < 0x110000 := by
    have := c.valid
    simpa [UInt32.isValidChar, Nat.isValidChar] using this
  have hchar : Char.ofNat c.val.toNat = c := Char.ofNat_toNat c
  generalize hn : c.val.toNat = n at hvalid hchar
  unfold String.utf8EncodeChar
  simp only [hn]
  -- One case for each length; the range of the second byte bars surrogates and long forms.
  split_ifs with h1 h2 h3
  · have hlead : (UInt8.ofNat n).toNat = n := toNat_ofNat (by omega)
    refine ⟨_, [], rfl, ?_⟩
    rw [first_one hlead (by omega), hchar]
    rfl
  · have hlead : (UInt8.ofNat (n / 64 % 32 + 192)).toNat = n / 64 + 192 := by
      rw [toNat_ofNat (by omega)]
      omega
    refine ⟨_, _, rfl, ?_⟩
    rw [first_cons (tailCount_eq (.inl ⟨rfl, by omega, by omega⟩))
      ((fits_iff _ _).mpr (by rw [hlead, toNat_tail]; omega)) (by simp)]
    have hpoint : n = (n / 64 + 192) % 32 * 64 + (n % 64 + 128) % 64 := by omega
    simp only [codePoint, List.length_cons, List.length_nil, List.foldl_cons, List.foldl_nil,
      hlead, toNat_tail, ← hpoint, hchar]
  · have hlead : (UInt8.ofNat (n / 4096 % 16 + 224)).toNat = n / 4096 + 224 := by
      rw [toNat_ofNat (by omega)]
      omega
    refine ⟨_, _, rfl, ?_⟩
    rw [first_cons (tailCount_eq (.inr (.inl ⟨rfl, by omega, by omega⟩)))
      ((fits_iff _ _).mpr (by rw [hlead, toNat_tail]; omega))
      (List.forall_mem_singleton.mpr (isTail_tail n))]
    have hpoint : n = ((n / 4096 + 224) % 16 * 64 + (n / 64 % 64 + 128) % 64) * 64 +
        (n % 64 + 128) % 64 := by omega
    simp only [codePoint, List.length_cons, List.length_nil, List.foldl_cons, List.foldl_nil,
      hlead, toNat_tail, ← hpoint, hchar]
  · have hlead : (UInt8.ofNat (n / 262144 % 8 + 240)).toNat = n / 262144 + 240 := by
      rw [toNat_ofNat (by omega)]
      omega
    refine ⟨_, _, rfl, ?_⟩
    rw [first_cons (tailCount_eq (.inr (.inr ⟨rfl, by omega, by omega⟩)))
      ((fits_iff _ _).mpr (by rw [hlead, toNat_tail]; omega))
      (List.forall_mem_cons.mpr ⟨isTail_tail _, List.forall_mem_singleton.mpr (isTail_tail n)⟩)]
    have hpoint : n = (((n / 262144 + 240) % 8 * 64 + (n / 4096 % 64 + 128) % 64) * 64 +
        (n / 64 % 64 + 128) % 64) * 64 + (n % 64 + 128) % 64 := by omega
    simp only [codePoint, List.length_cons, List.length_nil, List.foldl_cons, List.foldl_nil,
      hlead, toNat_tail, ← hpoint, hchar]

theorem chars?_encode (chars : List Char) :
    chars? (chars.flatMap String.utf8EncodeChar) = some chars := by
  induction chars with
  | nil => rw [List.flatMap_nil, chars?]
  | cons c rest ih =>
      obtain ⟨lead, tail, hbytes, hfirst⟩ :=
        first_utf8EncodeChar c (rest.flatMap String.utf8EncodeChar)
      rw [List.flatMap_cons, hbytes, List.cons_append, chars?, hfirst]
      simp only [List.drop_left, ih, Option.map_some]

/-- Every text is read back from its bytes. -/
theorem decode?_encode (s : String) : decode? (encode s) = some s := by
  rw [decode?, encode, chars?_encode, Option.map_some, String.ofList_toList]

theorem encode_injective : Function.Injective encode := by
  intro s t hbytes
  simpa [decode?_encode] using congrArg decode? hbytes

theorem encode_append (first second : String) :
    encode (first ++ second) = encode first ++ encode second := by
  simp [encode]

theorem encode_join (texts : List String) :
    encode (String.join texts) = texts.flatMap encode := by
  induction texts with
  | nil => rfl
  | cons text texts ih => simp [String.join_cons, encode_append, ih]

theorem encode_ne_nil {s : String} (hs : s ≠ "") : encode s ≠ [] := by
  intro hempty
  apply hs
  exact encode_injective (hempty.trans (by decide +kernel))

theorem utf8EncodeChar_ne_nil (c : Char) : String.utf8EncodeChar c ≠ [] := by
  obtain ⟨lead, tail, hbytes, -⟩ := first_utf8EncodeChar c []
  simp [hbytes]

/-- The byte at an end of a text belongs to the character there. -/
theorem mem_head?_encode {s : String} {b : UInt8} (hb : b ∈ (encode s).head?) :
    ∃ c ∈ s.toList.head?, b ∈ String.utf8EncodeChar c := by
  rw [encode] at hb
  cases hs : s.toList with
  | nil => simp [hs] at hb
  | cons c rest =>
      rw [hs, List.flatMap_cons, List.head?_append_of_ne_nil _ (utf8EncodeChar_ne_nil c)] at hb
      exact ⟨c, rfl, List.mem_of_mem_head? hb⟩

theorem mem_getLast?_encode {s : String} {b : UInt8} (hb : b ∈ (encode s).getLast?) :
    ∃ c ∈ s.toList.getLast?, b ∈ String.utf8EncodeChar c := by
  rw [encode] at hb
  rcases List.eq_nil_or_concat' s.toList with hs | ⟨front, c, hs⟩
  · simp [hs] at hb
  · rw [hs, List.flatMap_append, List.flatMap_singleton,
      List.getLast?_append_of_ne_nil _ (utf8EncodeChar_ne_nil c)] at hb
    exact ⟨c, by simp [hs], List.mem_of_mem_getLast? hb⟩

/-! ## No other bytes are read -/

theorem exists_tail_of_matchedTail {lead : UInt8} {count : Nat} {rest : Bytes}
    (hmatched : matchedTail lead (count + 1) rest = count + 1) :
    ∃ second tail, rest.take (count + 1) = second :: tail ∧ tail.length = count ∧
      Fits lead second ∧ ∀ b ∈ tail, isTail b = true := by
  cases rest with
  | nil => simp [matchedTail] at hmatched
  | cons second rest =>
      simp only [matchedTail, Nat.add_eq_zero_iff, Nat.one_ne_zero, and_false, if_false,
        Nat.add_sub_cancel] at hmatched
      split at hmatched
      next hfits =>
        have hcount : ((rest.take count).takeWhile isTail).length = count := by omega
        have htake : (rest.take count).length = count :=
          le_antisymm (List.length_take_le _ _)
            (hcount.symm.le.trans (List.takeWhile_prefix isTail).length_le)
        have htail : (rest.take count).takeWhile isTail = rest.take count :=
          (List.takeWhile_prefix isTail).eq_of_length (hcount.trans htake.symm)
        exact ⟨second, rest.take count, rfl, htake, by simpa [Fits] using hfits,
          List.takeWhile_eq_self_iff.mp htail⟩
      next => omega

theorem isTail_iff (b : UInt8) : isTail b = true ↔ 0x80 ≤ b.toNat ∧ b.toNat ≤ 0xBF := by
  simp only [isTail, Bool.and_eq_true, decide_eq_true_eq, UInt8.le_iff_toNat_le,
    UInt8.reduceToNat]

theorem ofNat_eq {n : Nat} {b : UInt8} (hn : n = b.toNat) : UInt8.ofNat n = b := by
  rw [hn]
  exact UInt8.ofNat_toNat

theorem toNat_val_ofNat {n : Nat} (hn : n < 0xD800 ∨ 0xDFFF < n ∧ n < 0x110000) :
    (Char.ofNat n).val.toNat = n := by
  have hvalid : n.isValidChar := hn
  rw [Char.ofNat, dif_pos hvalid]
  rfl

/-- A byte that follows writes six bits. -/
theorem ofNat_tail {n : Nat} {b : UInt8} (htail : isTail b = true) (hn : n % 64 = b.toNat % 64) :
    UInt8.ofNat (n % 64 + 128) = b := by
  rw [isTail_iff] at htail
  exact ofNat_eq (by omega)

theorem isTail_of_fits {lead second : UInt8} (hfits : Fits lead second) : isTail second = true :=
  (isTail_iff second).mpr ((fits_iff lead second).mp hfits).2.2.2.2

theorem tailCount_cases {lead : UInt8} {count : Nat} (hcount : tailCount lead = some count) :
    count = 0 ∧ lead.toNat ≤ 0x7F ∨ count = 1 ∧ 0xC2 ≤ lead.toNat ∧ lead.toNat ≤ 0xDF ∨
      count = 2 ∧ 0xE0 ≤ lead.toNat ∧ lead.toNat ≤ 0xEF ∨
      count = 3 ∧ 0xF0 ≤ lead.toNat ∧ lead.toNat ≤ 0xF4 := by
  unfold tailCount at hcount
  simp only [UInt8.le_iff_toNat_le, UInt8.reduceToNat, Bool.and_eq_true,
    decide_eq_true_eq] at hcount
  split_ifs at hcount <;> obtain rfl := Option.some.inj hcount <;> omega

theorem of_first {lead : UInt8} {rest : Bytes} {c : Char} {n : Nat}
    (hfirst : first lead rest = (some c, n)) :
    tailCount lead = some n ∧ matchedTail lead n rest = n ∧
      c = Char.ofNat (codePoint lead (rest.take n)) := by
  unfold first at hfirst
  cases hcount : tailCount lead with
  | none => simp [hcount] at hfirst
  | some count =>
      simp only [hcount] at hfirst
      split at hfirst
      next hmatched =>
        simp only [Prod.mk.injEq, Option.some.injEq] at hfirst
        obtain ⟨rfl, rfl⟩ := hfirst
        exact ⟨rfl, hmatched, rfl⟩
      next => simp at hfirst

theorem utf8EncodeChar_one {lead : UInt8} (hlead : lead.toNat ≤ 0x7F) :
    String.utf8EncodeChar (Char.ofNat (codePoint lead [])) = [lead] := by
  simp only [codePoint, List.length_nil, List.foldl_nil, String.utf8EncodeChar]
  rw [toNat_val_ofNat (by omega), if_pos hlead, UInt8.ofNat_toNat]

theorem utf8EncodeChar_two {lead second : UInt8} (hlead : 0xC2 ≤ lead.toNat ∧ lead.toNat ≤ 0xDF)
    (hfits : Fits lead second) :
    String.utf8EncodeChar (Char.ofNat (codePoint lead [second])) = [lead, second] := by
  have hrange := (fits_iff lead second).mp hfits
  simp only [codePoint, List.length_cons, List.length_nil, List.foldl_cons, List.foldl_nil,
    String.utf8EncodeChar]
  rw [toNat_val_ofNat (by omega), if_neg (by omega), if_pos (by omega),
    ofNat_eq (b := lead) (by omega), ofNat_tail (isTail_of_fits hfits) (by omega)]

theorem utf8EncodeChar_three {lead second third : UInt8}
    (hlead : 0xE0 ≤ lead.toNat ∧ lead.toNat ≤ 0xEF) (hfits : Fits lead second)
    (hthird : isTail third = true) :
    String.utf8EncodeChar (Char.ofNat (codePoint lead [second, third])) =
      [lead, second, third] := by
  have hrange := (fits_iff lead second).mp hfits
  simp only [codePoint, List.length_cons, List.length_nil, List.foldl_cons, List.foldl_nil,
    String.utf8EncodeChar]
  rw [toNat_val_ofNat (by omega), if_neg (by omega), if_neg (by omega), if_pos (by omega),
    ofNat_eq (b := lead) (by omega), ofNat_tail (isTail_of_fits hfits) (by omega),
    ofNat_tail hthird (by omega)]

theorem utf8EncodeChar_four {lead second third fourth : UInt8}
    (hlead : 0xF0 ≤ lead.toNat ∧ lead.toNat ≤ 0xF4) (hfits : Fits lead second)
    (hthird : isTail third = true) (hfourth : isTail fourth = true) :
    String.utf8EncodeChar (Char.ofNat (codePoint lead [second, third, fourth])) =
      [lead, second, third, fourth] := by
  have hrange := (fits_iff lead second).mp hfits
  simp only [codePoint, List.length_cons, List.length_nil, List.foldl_cons, List.foldl_nil,
    String.utf8EncodeChar]
  rw [toNat_val_ofNat (by omega), if_neg (by omega), if_neg (by omega), if_neg (by omega),
    ofNat_eq (b := lead) (by omega), ofNat_tail (isTail_of_fits hfits) (by omega),
    ofNat_tail hthird (by omega), ofNat_tail hfourth (by omega)]

/-- The bytes that are read as a character are those that write it. -/
theorem utf8EncodeChar_of_first {lead : UInt8} {rest : Bytes} {c : Char} {n : Nat}
    (hfirst : first lead rest = (some c, n)) : String.utf8EncodeChar c = lead :: rest.take n := by
  obtain ⟨hcount, hmatched, rfl⟩ := of_first hfirst
  rcases tailCount_cases hcount with ⟨rfl, hlead⟩ | ⟨rfl, hlead⟩ | ⟨rfl, hlead⟩ | ⟨rfl, hlead⟩
  · rw [List.take_zero, utf8EncodeChar_one hlead]
  · obtain ⟨second, tail, htake, hlength, hfits, -⟩ := exists_tail_of_matchedTail hmatched
    obtain rfl := List.length_eq_zero_iff.mp hlength
    rw [htake, utf8EncodeChar_two hlead hfits]
  · obtain ⟨second, tail, htake, hlength, hfits, htail⟩ := exists_tail_of_matchedTail hmatched
    obtain ⟨third, rfl⟩ := List.length_eq_one_iff.mp hlength
    rw [htake, utf8EncodeChar_three hlead hfits (htail third (by simp))]
  · obtain ⟨second, tail, htake, hlength, hfits, htail⟩ := exists_tail_of_matchedTail hmatched
    obtain ⟨third, fourth, rfl⟩ := List.length_eq_two.mp hlength
    rw [htake, utf8EncodeChar_four hlead hfits (htail third (by simp)) (htail fourth (by simp))]

theorem eq_of_chars? {bytes : Bytes} {chars : List Char} (hchars : chars? bytes = some chars) :
    bytes = chars.flatMap String.utf8EncodeChar := by
  fun_induction chars? bytes generalizing chars with
  | case1 =>
      obtain rfl := Option.some.inj hchars
      rfl
  | case2 lead rest c n hfirst ih =>
      obtain ⟨more, hmore, rfl⟩ := Option.map_eq_some_iff.mp hchars
      rw [List.flatMap_cons, utf8EncodeChar_of_first hfirst, ← ih hmore, List.cons_append,
        List.take_append_drop]
  | case3 => exact absurd hchars (by simp)

/-- No other bytes are read as a text. -/
theorem decode?_eq_some_iff {bytes : Bytes} {s : String} :
    decode? bytes = some s ↔ bytes = encode s := by
  constructor
  · intro hdecode
    obtain ⟨chars, hchars, rfl⟩ := Option.map_eq_some_iff.mp hdecode
    rw [encode, String.toList_ofList]
    exact eq_of_chars? hchars
  · rintro rfl
    exact decode?_encode s

/-! ## Bytes of ASCII characters -/

/-- Bytes of other than ASCII characters are all above it. -/
theorem mem_utf8EncodeChar {c : Char} {b : UInt8} (hb : b ∈ String.utf8EncodeChar c) :
    c.toNat < 128 ∧ b.toNat = c.toNat ∨ 128 ≤ b.toNat := by
  have hval : c.val.toNat = c.toNat := rfl
  unfold String.utf8EncodeChar at hb
  simp only [hval] at hb
  split_ifs at hb with h1 h2 h3
  · left
    rw [List.mem_singleton] at hb
    rw [hb, toNat_ofNat (by omega)]
    exact ⟨by omega, rfl⟩
  all_goals
    right
    simp only [List.mem_cons, List.not_mem_nil, or_false] at hb
  · rcases hb with rfl | rfl <;> rw [toNat_ofNat (by omega)] <;> omega
  · rcases hb with rfl | rfl | rfl <;> rw [toNat_ofNat (by omega)] <;> omega
  · rcases hb with rfl | rfl | rfl | rfl <;> rw [toNat_ofNat (by omega)] <;> omega

/-- An ASCII character is written as its own byte. -/
theorem utf8EncodeChar_of_lt {c : Char} (hc : c.toNat < 128) :
    String.utf8EncodeChar c = [c.toNat.toUInt8] := by
  have hval : c.val.toNat = c.toNat := rfl
  simp only [String.utf8EncodeChar, hval]
  rw [if_pos (by omega)]

theorem encode_of_ascii {s : String} (hs : ∀ c ∈ s.toList, c.toNat < 128) :
    encode s = s.toList.map fun c => c.toNat.toUInt8 := by
  rw [encode, List.map_eq_flatMap]
  exact List.flatMap_congr fun c hc => utf8EncodeChar_of_lt (hs c hc)

/-- A byte below 128 stands for its own character. -/
theorem exists_mem_of_mem_encode {s : String} {b : UInt8} (hb : b ∈ encode s)
    (hlow : b.toNat < 128) : ∃ c ∈ s.toList, c.toNat = b.toNat := by
  obtain ⟨c, hc, hbyte⟩ := List.mem_flatMap.mp hb
  rcases mem_utf8EncodeChar hbyte with ⟨-, heq⟩ | hhigh
  · exact ⟨c, hc, heq.symm⟩
  · omega

theorem notMem_encode {s : String} {b : UInt8} (hlow : b.toNat < 128)
    (hs : ∀ c ∈ s.toList, c ≠ Char.ofNat b.toNat) : b ∉ encode s := by
  intro hb
  obtain ⟨c, hc, hnat⟩ := exists_mem_of_mem_encode hb hlow
  apply hs c hc
  rw [← hnat, Char.ofNat_toNat]

end Utf8
end WebApp
