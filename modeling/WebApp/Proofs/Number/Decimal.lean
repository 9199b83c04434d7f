import Mathlib.Tactic
import WebApp.Number.Integer

/-!
# What decimal digits write

The reading of an integer goes over the digits once and stops as soon as they leave the bounds.
It takes a text just if the text writes an integer inside the bounds, and it takes it for that
integer.
-/

namespace WebApp
namespace Text

/-- The number that decimal digits write, without any sign. -/
def decimal? (s : String) : Option Nat :=
  if s.toList ≠ [] ∧ s.toList.all Char.isDigit then some (Nat.ofDigitChars 10 s.toList 0) else none

/-- The integer that decimal digits write, with or without a sign before them. -/
def integer? (s : String) : Option Int :=
  match s.toList with
  | '+' :: digits => (decimal? (String.ofList digits)).map Int.ofNat
  | '-' :: digits => (decimal? (String.ofList digits)).map fun n : Nat => -(n : Int)
  | _ => (decimal? s).map Int.ofNat

theorem decimal?_repr (n : Nat) : decimal? n.repr = some n := by
  have hdigits : (Nat.toDigits 10 n).all Char.isDigit = true := by
    rw [List.all_eq_true]
    intro c hc
    exact Nat.isDigit_of_mem_toDigits (by norm_num) (by norm_num) hc
  rw [decimal?, Nat.repr_eq_ofList_toDigits, String.toList_ofList,
    if_pos ⟨Nat.toDigits_ne_nil, hdigits⟩, Nat.ofDigitChars_ten_toDigits]

theorem decimal?_eq_some_iff {s : String} {n : Nat} :
    decimal? s = some n ↔
      s.toList ≠ [] ∧ s.toList.all Char.isDigit = true ∧ Nat.ofDigitChars 10 s.toList 0 = n := by
  rw [decimal?, Option.ite_none_right_eq_some, Option.some.injEq, and_assoc]

end Text

namespace Integer

variable {low high n : Int} {digits : List Char}

theorem le_ofDigitChars (digits : List Char) (value : Nat) :
    value ≤ Nat.ofDigitChars 10 digits value := by
  induction digits generalizing value with
  | nil => exact Nat.le_refl value
  | cons c digits ih =>
      rw [Nat.ofDigitChars_cons]
      have hrest := ih (10 * value + (c.toNat - '0'.toNat))
      omega

theorem readUp_eq_ok_iff {value : Nat} (hvalue : (value : Int) ≤ high) :
    readUp high value digits = .ok n ↔
      digits.all Char.isDigit = true ∧ (Nat.ofDigitChars 10 digits value : Int) = n ∧
        n ≤ high := by
  induction digits generalizing value with
  | nil =>
      rw [readUp, Except.ok.injEq]
      constructor
      · rintro rfl
        exact ⟨rfl, rfl, hvalue⟩
      · exact fun h => h.2.1
  | cons c digits ih =>
      rw [readUp, digit?, List.all_cons, Bool.and_eq_true, Nat.ofDigitChars_cons]
      by_cases hdigit : c.isDigit = true
      · rw [if_pos hdigit]
        dsimp only
        have hnext : (value : Int) * 10 + ((c.toNat - '0'.toNat : Nat) : Int) =
            ((10 * value + (c.toNat - '0'.toNat) : Nat) : Int) := by
          push_cast
          ring
        rw [hnext]
        split
        next hlarge =>
          -- More digits do not make the number smaller.
          have hle := le_ofDigitChars digits (10 * value + (c.toNat - '0'.toNat))
          constructor
          · exact fun h => absurd h (by simp)
          · rintro ⟨-, rfl, hhigh⟩
            omega
        next hfits =>
          rw [ih (Int.not_lt.mp hfits)]
          simp only [hdigit, true_and]
      · rw [if_neg hdigit]
        simp [hdigit]

theorem readDown_eq_ok_iff {value : Nat} (hvalue : low ≤ -(value : Int)) :
    readDown low (-(value : Int)) digits = .ok n ↔
      digits.all Char.isDigit = true ∧ -(Nat.ofDigitChars 10 digits value : Int) = n ∧
        low ≤ n := by
  induction digits generalizing value with
  | nil =>
      rw [readDown, Except.ok.injEq]
      constructor
      · rintro rfl
        exact ⟨rfl, rfl, hvalue⟩
      · exact fun h => h.2.1
  | cons c digits ih =>
      rw [readDown, digit?, List.all_cons, Bool.and_eq_true, Nat.ofDigitChars_cons]
      by_cases hdigit : c.isDigit = true
      · rw [if_pos hdigit]
        dsimp only
        have hnext : -(value : Int) * 10 - ((c.toNat - '0'.toNat : Nat) : Int) =
            -((10 * value + (c.toNat - '0'.toNat) : Nat) : Int) := by
          push_cast
          ring
        rw [hnext]
        split
        next hsmall =>
          have hle := le_ofDigitChars digits (10 * value + (c.toNat - '0'.toNat))
          constructor
          · exact fun h => absurd h (by simp)
          · rintro ⟨-, rfl, hlow⟩
            omega
        next hfits =>
          rw [ih (Int.not_lt.mp hfits)]
          simp only [hdigit, true_and]
      · rw [if_neg hdigit]
        simp [hdigit]

theorem readUp_zero_eq_ok_iff (hlow : low ≤ 0) (hhigh : 0 ≤ high) (hdigits : digits ≠ []) :
    readUp high 0 digits = .ok n ↔
      (Text.decimal? (String.ofList digits)).map Int.ofNat = some n ∧ low ≤ n ∧ n ≤ high := by
  have hread : readUp high ((0 : Nat) : Int) digits = .ok n ↔ _ := readUp_eq_ok_iff hhigh
  rw [Int.natCast_zero] at hread
  rw [hread, Option.map_eq_some_iff]
  simp only [Text.decimal?_eq_some_iff, String.toList_ofList]
  constructor
  · rintro ⟨hall, rfl, hle⟩
    exact ⟨⟨_, ⟨hdigits, hall, rfl⟩, rfl⟩, hlow.trans (Int.natCast_nonneg _), hle⟩
  · rintro ⟨⟨_, ⟨-, hall, rfl⟩, rfl⟩, -, hle⟩
    exact ⟨hall, rfl, hle⟩

theorem readDown_zero_eq_ok_iff (hlow : low ≤ 0) (hhigh : 0 ≤ high) (hdigits : digits ≠ []) :
    readDown low 0 digits = .ok n ↔
      (Text.decimal? (String.ofList digits)).map (fun k : Nat => -(k : Int)) = some n ∧
        low ≤ n ∧ n ≤ high := by
  have hread : readDown low (-((0 : Nat) : Int)) digits = .ok n ↔ _ :=
    readDown_eq_ok_iff (by simpa using hlow)
  rw [Int.natCast_zero, neg_zero] at hread
  rw [hread, Option.map_eq_some_iff]
  simp only [Text.decimal?_eq_some_iff, String.toList_ofList]
  constructor
  · rintro ⟨hall, rfl, hle⟩
    exact ⟨⟨_, ⟨hdigits, hall, rfl⟩, rfl⟩, hle, by omega⟩
  · rintro ⟨⟨_, ⟨-, hall, rfl⟩, rfl⟩, hle, -⟩
    exact ⟨hall, rfl, hle⟩

/-- Where negative numbers are allowed, a text is taken for the integer that it writes. -/
theorem read_eq_ok_iff (hlow : low < 0) (hhigh : 0 ≤ high) {s : String} :
    read low high s = .ok n ↔ Text.integer? s = some n ∧ low ≤ n ∧ n ≤ high := by
  have hnothing : Text.decimal? (String.ofList []) = none := by decide
  rw [read, Text.integer?]
  split
  next hempty =>
    rw [hempty]
    simp [Text.decimal?, hempty]
  next hplus => simp [hplus, hnothing]
  next hminus => simp [hminus, hnothing]
  next digits hne hplus =>
    rw [hplus]
    exact readUp_zero_eq_ok_iff hlow.le hhigh hne
  next digits hne hminus =>
    rw [hminus, if_pos hlow]
    exact readDown_zero_eq_ok_iff hlow.le hhigh hne
  next digits hempty hplus hminus hplus' hminus' =>
    have hread : readUp high 0 s.toList = .ok n ↔ _ :=
      readUp_zero_eq_ok_iff hlow.le hhigh hempty
    rw [String.ofList_toList] at hread
    rw [hread]
    split
    next hcons => exact absurd hcons (hplus' _)
    next hcons => exact absurd hcons (hminus' _)
    next => rfl

/-- What a count is taken for fits sixty-four bits. -/
theorem lt_of_readCount? {s : String} {n : Nat} (hread : readCount? s = some n) :
    n < Nat.pow 2 64 := by
  have hbound : ∀ {digits : List Char} {k : Int}, readUp greatestWord64 0 digits = .ok k →
      k ≤ greatestWord64 := by
    intro digits k hdigits
    rw [← Int.natCast_zero, readUp_eq_ok_iff (by decide)] at hdigits
    exact hdigits.2.2
  rw [readCount?, Option.map_eq_some_iff] at hread
  obtain ⟨k, hread, rfl⟩ := hread
  have hk : k ≤ greatestWord64 := by
    cases hok : read 0 greatestWord64 s with
    | error cause =>
        rw [hok] at hread
        exact absurd hread (by simp [Except.toOption])
    | ok other =>
        rw [hok] at hread
        obtain rfl : other = k := Option.some.inj hread
        rw [read] at hok
        split at hok
        next => exact absurd hok (by simp)
        next => exact absurd hok (by simp)
        next => exact absurd hok (by simp)
        next => exact hbound hok
        next => exact absurd hok (by simp)
        next => exact hbound hok
  rw [greatestWord64] at hk
  have hpow : Nat.pow 2 64 = 18446744073709551616 := rfl
  omega

theorem read64_eq_ok_iff {s : String} :
    read64 s = .ok n ↔ Text.integer? s = some n ∧ least64 ≤ n ∧ n ≤ greatest64 :=
  read_eq_ok_iff (by decide) (by decide)

end Integer
end WebApp
