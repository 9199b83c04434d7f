import WebApp.Text.Extender

/-!
# Texts

How texts are compared, trimmed and cut, and how they are shown inside a message.
-/

namespace WebApp.Text

/-! ## Letter case

Names in a message head are compared without regard to the case of ASCII letters.
Other characters are compared as they are.
-/

/-- The text with its ASCII letters in lower case. -/
def fold (s : String) : String :=
  String.ofList (s.toList.map Char.toLower)

/-- Two texts that differ at most in the case of ASCII letters. -/
def sameFolded (s t : String) : Bool :=
  fold s == fold t

theorem sameFolded_self (s : String) : sameFolded s s = true := by
  simp [sameFolded]

theorem sameFolded_comm (s t : String) : sameFolded s t = sameFolded t s := by
  simp [sameFolded, Bool.beq_comm]

/-- A name that differs from a word at most in the case of letters has the characters of the
word. -/
theorem toLower_mem_of_sameFolded {name word : String} (hsame : sameFolded name word = true)
    {c : Char} (hc : c ∈ name.toList) : c.toLower ∈ (fold word).toList := by
  have hfold : fold name = fold word := by simpa [sameFolded] using hsame
  rw [← hfold, fold, String.toList_ofList]
  exact List.mem_map_of_mem hc

/-- Whether `part` stands somewhere in `whole`, as characters. -/
def occursIn (part : List Char) : List Char → Bool
  | [] => part.isEmpty
  | c :: rest => part.isPrefixOf (c :: rest) || occursIn part rest

/-- Whether `part` stands somewhere in `whole`. -/
def contains (whole part : String) : Bool :=
  occursIn part.toList whole.toList

/-! ## Blanks -/

/-- The characters with the property `White_Space`. -/
def isBlank (c : Char) : Bool :=
  let n := c.toNat
  (9 ≤ n && n ≤ 13) || n == 0x20 || n == 0x85 || n == 0xA0 || n == 0x1680 ||
    (0x2000 ≤ n && n ≤ 0x200A) || n == 0x2028 || n == 0x2029 || n == 0x202F ||
    n == 0x205F || n == 0x3000

/-- The characters without the blanks at either end. -/
def trimBlanks (cs : List Char) : List Char :=
  ((cs.dropWhile isBlank).reverse.dropWhile isBlank).reverse

/-- The text without the blanks at either end. -/
def trim (s : String) : String :=
  String.ofList (trimBlanks s.toList)

/-! ## Cutting at a separator -/

/-- The characters before and after the first separator. -/
def cut (sep : Char) : List Char → Option (List Char × List Char)
  | [] => none
  | c :: rest =>
    if c = sep then
      some ([], rest)
    else
      (cut sep rest).map fun (before, after) => (c :: before, after)

/-- The texts before and after the first separator. -/
def splitOnce (sep : Char) (s : String) : Option (String × String) :=
  (cut sep s.toList).map fun (before, after) => (String.ofList before, String.ofList after)

/-- The pieces between separators; one more than there are separators. -/
def pieces (sep : Char) (s : String) : List String :=
  (s.toList.splitOn sep).map String.ofList

/-- The texts before and after the last separator. -/
def splitLast (sep : Char) (s : String) : Option (String × String) :=
  (cut sep s.toList.reverse).map fun (after, before) =>
    (String.ofList before.reverse, String.ofList after.reverse)

theorem append_of_cut {sep : Char} {cs before after : List Char}
    (h : cut sep cs = some (before, after)) : cs = before ++ sep :: after := by
  induction cs generalizing before with
  | nil => simp [cut] at h
  | cons c rest ih =>
    simp only [cut] at h
    split at h
    · next hc =>
      simp only [Option.some.injEq, Prod.mk.injEq] at h
      obtain ⟨rfl, rfl⟩ := h
      simp [hc]
    · obtain ⟨⟨b, a⟩, hcut, heq⟩ := Option.map_eq_some_iff.1 h
      simp only [Prod.mk.injEq] at heq
      obtain ⟨rfl, rfl⟩ := heq
      simp [ih hcut]

/-! ## Quoted texts

A quoted text stands between double quotes, with an escape for every character that could be
mistaken for another or that shows nothing of its own.
-/

/-- Lower-case hexadecimal digits without leading zeros. -/
def hexDigits (n : Nat) : List Char :=
  Nat.toDigits 16 n

/-- One character of a quoted text. -/
def quotedChar (c : Char) : List Char :=
  match c with
  | '"' => ['\\', '"']
  | '\\' => ['\\', '\\']
  | '\n' => ['\\', 'n']
  | '\r' => ['\\', 'r']
  | '\t' => ['\\', 't']
  | '\x00' => ['\\', '0']
  | _ =>
    if isExtender c || !isPrintable c then
      ['\\', 'u', '\x7b'] ++ hexDigits c.toNat ++ ['\x7d']
    else
      [c]

/-- The text between quotes, with its escapes. -/
def quoted (s : String) : String :=
  String.ofList ('"' :: s.toList.flatMap quotedChar ++ ['"'])

end WebApp.Text
