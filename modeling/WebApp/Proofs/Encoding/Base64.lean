import Mathlib.Tactic
import WebApp.Encoding.Base64

/-!
# Base64 is read back

Every group of four characters stands for the bytes that it writes, and each of the ways to fill up
the last group is the only one for its bytes: no character, no filling and no bits are spare.  So
the reader takes just the texts that the writer makes, each for the bytes that it was made of.
-/

namespace WebApp
namespace Base64

/-! ## Characters of the alphabet -/

theorem value?_symbol {n : Nat} (hn : n < 64) : value? (symbol n) = some n := by
  revert n
  decide

theorem symbol_ne_filling {n : Nat} (hn : n < 64) : symbol n ≠ '=' := by
  revert n
  decide

theorem toNat_lt_of_value? {c : Char} {n : Nat} (hvalue : value? c = some n) : c.toNat < 128 := by
  have hle : ∀ d : Char, c ≤ d → c.toNat ≤ d.toNat := fun _ h => h
  unfold value? at hvalue
  split_ifs at hvalue with hupper hlower hdigit hplus hslash
  · exact (hle 'Z' (by simp_all)).trans_lt (by decide)
  · exact (hle 'z' (by simp_all)).trans_lt (by decide)
  · exact (hle '9' (by simp_all)).trans_lt (by decide)
  · rw [hplus]
    decide
  · rw [hslash]
    decide

/-- A character with a value is the only one with it. -/
theorem of_value? {c : Char} {n : Nat} (hvalue : value? c = some n) : n < 64 ∧ symbol n = c := by
  have hall : ∀ code < 128, ∀ value ∈ value? (Char.ofNat code),
      value < 64 ∧ symbol value = Char.ofNat code := by
    decide +kernel
  have hc := hall c.toNat (toNat_lt_of_value? hvalue) n
  rw [Char.ofNat_toNat] at hc
  exact hc hvalue

/-! ## Groups -/

theorem decode?_group {p q r s : Char} (hs : s ≠ '=') (rest : List Char) :
    decode? (p :: q :: r :: s :: rest) = (do
      let p ← value? p
      let q ← value? q
      let r ← value? r
      let s ← value? s
      let more ← decode? rest
      some ((p * 4 + q / 16).toUInt8 :: (q % 16 * 16 + r / 4).toUInt8 ::
        (r % 4 * 64 + s).toUInt8 :: more)) := by
  rw [decode?]
  · intro hr hfilling
    exact absurd hfilling hs
  · intro hfilling
    exact absurd hfilling hs

theorem toUInt8_eq {n : Nat} {b : UInt8} (hn : n = b.toNat) : n.toUInt8 = b := by
  rw [hn]
  exact UInt8.ofNat_toNat

theorem toNat_toUInt8 {n : Nat} (hn : n < 256) : n.toUInt8.toNat = n :=
  UInt8.toNat_ofNat_of_lt' hn

/-- The bytes that a text was made of are read from it. -/
theorem decode?_encode (bytes : Bytes) : decode? (encode bytes) = some bytes := by
  fun_induction encode bytes with
  | case1 => rfl
  | case2 a =>
      have ha := a.toNat_lt
      simp only [decode?, value?_symbol (n := a.toNat / 4) (by omega),
        value?_symbol (n := a.toNat % 4 * 16) (by omega), Option.bind_eq_bind, Option.bind_some]
      rw [if_pos (by omega), toUInt8_eq (b := a) (by omega)]
  | case3 a b =>
      have ha := a.toNat_lt
      have hb := b.toNat_lt
      rw [decode?.eq_3 _ _ _ (symbol_ne_filling (by omega))]
      simp only [value?_symbol (n := a.toNat / 4) (by omega),
        value?_symbol (n := a.toNat % 4 * 16 + b.toNat / 16) (by omega),
        value?_symbol (n := b.toNat % 16 * 4) (by omega), Option.bind_eq_bind, Option.bind_some]
      rw [if_pos (by omega), toUInt8_eq (b := a) (by omega), toUInt8_eq (b := b) (by omega)]
  | case4 a b c rest ih =>
      have ha := a.toNat_lt
      have hb := b.toNat_lt
      have hc := c.toNat_lt
      rw [decode?_group (symbol_ne_filling (by omega)), ih]
      simp only [value?_symbol (n := a.toNat / 4) (by omega),
        value?_symbol (n := a.toNat % 4 * 16 + b.toNat / 16) (by omega),
        value?_symbol (n := b.toNat % 16 * 4 + c.toNat / 64) (by omega),
        value?_symbol (n := c.toNat % 64) (by omega), Option.bind_eq_bind, Option.bind_some]
      rw [toUInt8_eq (b := a) (by omega), toUInt8_eq (b := b) (by omega),
        toUInt8_eq (b := c) (by omega)]

/-- No other text is read. -/
theorem eq_encode_of_decode? {cs : List Char} {bytes : Bytes} (hdecode : decode? cs = some bytes) :
    cs = encode bytes := by
  fun_induction decode? cs generalizing bytes with
  | case1 =>
      obtain rfl := Option.some.inj hdecode
      rfl
  | case2 p q =>
      simp only [Option.bind_eq_bind, Option.bind_eq_some_iff, Option.ite_none_right_eq_some,
        Option.some.injEq] at hdecode
      obtain ⟨first, hp, second, hq, hspare, rfl⟩ := hdecode
      obtain ⟨hfirst, rfl⟩ := of_value? hp
      obtain ⟨hsecond, rfl⟩ := of_value? hq
      have hp : (first * 4 + second / 16) / 4 = first := by omega
      have hq : (first * 4 + second / 16) % 4 * 16 = second := by omega
      rw [encode, toNat_toUInt8 (by omega), hp, hq]
  | case3 p q r _ =>
      simp only [Option.bind_eq_bind, Option.bind_eq_some_iff, Option.ite_none_right_eq_some,
        Option.some.injEq] at hdecode
      obtain ⟨first, hp, second, hq, third, hr, hspare, rfl⟩ := hdecode
      obtain ⟨hfirst, rfl⟩ := of_value? hp
      obtain ⟨hsecond, rfl⟩ := of_value? hq
      obtain ⟨hthird, rfl⟩ := of_value? hr
      have hp : (first * 4 + second / 16) / 4 = first := by omega
      have hq : (first * 4 + second / 16) % 4 * 16 + (second % 16 * 16 + third / 4) / 16 =
          second := by omega
      have hr : (second % 16 * 16 + third / 4) % 16 * 4 = third := by omega
      rw [encode, toNat_toUInt8 (by omega), toNat_toUInt8 (by omega), hp, hq, hr]
  | case4 p q r s rest _ _ ih =>
      simp only [Option.bind_eq_bind, Option.bind_eq_some_iff, Option.some.injEq] at hdecode
      obtain ⟨first, hp, second, hq, third, hr, fourth, hs, more, hmore, rfl⟩ := hdecode
      obtain ⟨hfirst, rfl⟩ := of_value? hp
      obtain ⟨hsecond, rfl⟩ := of_value? hq
      obtain ⟨hthird, rfl⟩ := of_value? hr
      obtain ⟨hfourth, rfl⟩ := of_value? hs
      have hp : (first * 4 + second / 16) / 4 = first := by omega
      have hq : (first * 4 + second / 16) % 4 * 16 + (second % 16 * 16 + third / 4) / 16 =
          second := by omega
      have hr : (second % 16 * 16 + third / 4) % 16 * 4 + (third % 4 * 64 + fourth) / 64 =
          third := by omega
      have hs : (third % 4 * 64 + fourth) % 64 = fourth := by omega
      rw [encode, toNat_toUInt8 (by omega), toNat_toUInt8 (by omega), toNat_toUInt8 (by omega),
        hp, hq, hr, hs, ← ih hmore]
  | case5 => exact absurd hdecode (by simp)

theorem decode?_eq_some_iff {cs : List Char} {bytes : Bytes} :
    decode? cs = some bytes ↔ cs = encode bytes := by
  constructor
  · exact eq_encode_of_decode?
  · rintro rfl
    exact decode?_encode bytes

/-- The characters that are written are those of the alphabet, and the filling. -/
theorem mem_encode {bytes : Bytes} {c : Char} (hc : c ∈ encode bytes) :
    c = '=' ∨ ∃ n < 64, c = symbol n := by
  fun_induction encode bytes with
  | case1 => simp at hc
  | case2 a =>
      have ha := a.toNat_lt
      simp only [List.mem_cons, List.not_mem_nil, or_false] at hc
      rcases hc with rfl | rfl | rfl | rfl
      · exact .inr ⟨_, by omega, rfl⟩
      · exact .inr ⟨_, by omega, rfl⟩
      · exact .inl rfl
      · exact .inl rfl
  | case3 a b =>
      have ha := a.toNat_lt
      have hb := b.toNat_lt
      simp only [List.mem_cons, List.not_mem_nil, or_false] at hc
      rcases hc with rfl | rfl | rfl | rfl
      · exact .inr ⟨_, by omega, rfl⟩
      · exact .inr ⟨_, by omega, rfl⟩
      · exact .inr ⟨_, by omega, rfl⟩
      · exact .inl rfl
  | case4 a b c' rest ih =>
      have ha := a.toNat_lt
      have hb := b.toNat_lt
      have hc' := c'.toNat_lt
      simp only [List.mem_cons] at hc
      rcases hc with rfl | rfl | rfl | rfl | hrest
      · exact .inr ⟨_, by omega, rfl⟩
      · exact .inr ⟨_, by omega, rfl⟩
      · exact .inr ⟨_, by omega, rfl⟩
      · exact .inr ⟨_, by omega, rfl⟩
      · exact ih hrest

end Base64
end WebApp
