import Mathlib.Tactic
import WebApp.Proofs.Routing.Entries

/-!
# Patterns that can be told apart

A regular pattern is made of text, of parameters with the letters of the alphabet in order, at most
one in a segment, and of a catch-all at the end.  Two regular patterns conflict when they are the
same up to the names of their parameters, or when one has a catch-all where the other, alike so
far, has a parameter or another catch-all.
-/

namespace WebApp

/-- A byte of text.  A brace in it is a literal one. -/
def Mark.IsText (m : Mark) : Prop :=
  m.isLiteral = (m.byte == 123 || m.byte == 125)

instance (m : Mark) : Decidable m.IsText :=
  inferInstanceAs (Decidable (_ = _))

/-- The marks of a name behind the star of a catch-all. -/
def IsName (name : List Mark) : Prop :=
  name ≠ [] ∧ ∀ m ∈ name, m.byte ≠ 42 ∧ m.byte ≠ 47 ∧ m.closes = false

/-- Patterns whose parameters have these letters in order.  `taken` tells whether there is a
parameter in the segment already. -/
inductive Regular : List UInt8 → Bool → List Mark → Prop where
  | nil (letters : List UInt8) (taken : Bool) : Regular letters taken []
  | text {letters : List UInt8} {taken : Bool} {m : Mark} {rest : List Mark} :
      m.IsText → Regular letters (taken && m.byte != 47) rest → Regular letters taken (m :: rest)
  | param {letters : List UInt8} {letter : UInt8} {rest : List Mark} :
      letter ∈ Pattern.letters → Regular letters true rest →
      Regular (letter :: letters) false (⟨123, false⟩ :: ⟨letter, false⟩ :: ⟨125, false⟩ :: rest)
  | catchAll {letters : List UInt8} {name : List Mark} :
      IsName name →
      Regular letters false (⟨123, false⟩ :: ⟨42, false⟩ :: (name ++ [⟨125, false⟩]))

/-- Two patterns that no tree holds both of. -/
inductive Conflicts : List Mark → List Mark → Prop where
  | same : Conflicts [] []
  | text {m : Mark} {p q : List Mark} :
      m.IsText → Conflicts p q → Conflicts (m :: p) (m :: q)
  | param {letter : UInt8} {p q : List Mark} :
      letter ∈ Pattern.letters → Conflicts p q →
      Conflicts (⟨123, false⟩ :: ⟨letter, false⟩ :: ⟨125, false⟩ :: p)
        (⟨123, false⟩ :: ⟨letter, false⟩ :: ⟨125, false⟩ :: q)
  | left (p q : List Mark) :
      Conflicts (⟨123, false⟩ :: ⟨42, false⟩ :: p) (⟨123, false⟩ :: q)
  | right (p q : List Mark) :
      Conflicts (⟨123, false⟩ :: p) (⟨123, false⟩ :: ⟨42, false⟩ :: q)

/-! ## Text -/

section Text

variable {m other : Mark}

theorem Mark.IsText.not_opens (htext : m.IsText) : m.opens = false := by
  unfold IsText at htext
  rw [opens, htext]
  cases m.byte == 123 <;> rfl

theorem Mark.IsText.not_closes (htext : m.IsText) : m.closes = false := by
  unfold IsText at htext
  rw [closes, htext]
  cases m.byte == 125 <;> simp

theorem Mark.IsText.eq_of_byte (htext : m.IsText) (hother : other.IsText)
    (hbyte : m.byte = other.byte) : m = other := by
  unfold IsText at htext hother
  cases m
  cases other
  simp_all

theorem eq_of_bytes {texts others : List Mark} (htexts : ∀ m ∈ texts, m.IsText)
    (hothers : ∀ m ∈ others, m.IsText) (hbytes : Mark.bytes texts = Mark.bytes others) :
    texts = others := by
  induction texts generalizing others with
  | nil =>
      cases others with
      | nil => rfl
      | cons other others => exact absurd hbytes (by simp [Mark.bytes])
  | cons m texts ih =>
      cases others with
      | nil => exact absurd hbytes (by simp [Mark.bytes])
      | cons other others =>
          rw [List.forall_mem_cons] at htexts hothers
          simp only [Mark.bytes, List.map_cons, List.cons.injEq] at hbytes
          rw [htexts.1.eq_of_byte hothers.1 hbytes.1, ih htexts.2 hothers.2 hbytes.2]

theorem not_isText_open : ¬ (⟨123, false⟩ : Mark).IsText := by
  decide

/-- What the letters of parameters are not. -/
theorem ne_of_mem_letters {letter : UInt8} (hletter : letter ∈ Pattern.letters) :
    letter ≠ 42 ∧ letter ≠ 47 ∧ letter ≠ 123 ∧ letter ≠ 125 := by
  have hall : ∀ letter ∈ Pattern.letters,
      letter ≠ 42 ∧ letter ≠ 47 ∧ letter ≠ 123 ∧ letter ≠ 125 := by
    decide +kernel
  exact hall letter hletter

end Text

/-! ## Finding parameters in regular patterns -/

theorem findParam_text {place : Nat} {m : Mark} {rest : List Mark} (htext : m.IsText) :
    findParam place (m :: rest) = findParam (place + 1) rest := by
  rw [findParam.eq_def]
  simp [htext.not_opens, htext.not_closes]

theorem findParam_texts {front : List Mark} (htext : ∀ m ∈ front, m.IsText) (place : Nat)
    (behind : List Mark) :
    findParam place (front ++ behind) = findParam (place + front.length) behind := by
  induction front generalizing place with
  | nil => rfl
  | cons m front ih =>
      rw [List.forall_mem_cons] at htext
      rw [List.cons_append, findParam_text htext.1, ih htext.2, List.length_cons]
      congr 1
      omega

theorem findParam_eq_none {front : List Mark} (htext : ∀ m ∈ front, m.IsText) (place : Nat) :
    findParam place front = .ok none := by
  have hfind := findParam_texts htext place []
  rwa [List.append_nil] at hfind

theorem findParam_param {letter : UInt8} (hletter : letter ∈ Pattern.letters) (place : Nat)
    (rest : List Mark) :
    findParam place (⟨123, false⟩ :: ⟨letter, false⟩ :: ⟨125, false⟩ :: rest) =
      .ok (some (place, place + 3)) := by
  have hne := ne_of_mem_letters hletter
  simp [findParam, Mark.closes, Mark.opens, paramEnd, hne, Except.map]

theorem paramEnd_name {name : List Mark}
    (hname : ∀ m ∈ name, m.byte ≠ 42 ∧ m.byte ≠ 47 ∧ m.closes = false) {last : UInt8}
    (hlast : name = [] → last ≠ 42) (count : Nat) :
    paramEnd last count (name ++ [⟨125, false⟩]) = .ok (count + name.length + 1) := by
  induction name generalizing last count with
  | nil => simp [paramEnd, hlast rfl]
  | cons m name ih =>
      rw [List.forall_mem_cons] at hname
      obtain ⟨⟨hstar, hslash, hcloses⟩, hrest⟩ := hname
      have hstep := ih hrest (fun _ => hstar) (count + 1)
      rw [List.cons_append, paramEnd]
      split
      next hbyte =>
        have hliteral : m.isLiteral = true := by
          simpa [Mark.closes, hbyte] using hcloses
        rw [if_pos hliteral, hstep, List.length_cons]
        congr 1
        omega
      next =>
        rw [if_neg (by simp [hstar, hslash]), hstep, List.length_cons]
        congr 1
        omega

theorem findParam_catchAll {name : List Mark} (hname : IsName name) (place : Nat) :
    findParam place (⟨123, false⟩ :: ⟨42, false⟩ :: (name ++ [⟨125, false⟩])) =
      .ok (some (place, place + name.length + 3)) := by
  have hlast : name = [] → (42 : UInt8) ≠ 42 := fun hnil => absurd hnil hname.1
  have hend := paramEnd_name hname.2 hlast (place + 2)
  simp only [findParam, Mark.closes, Mark.opens]
  rw [hend]
  simp [Except.map]
  omega

/-! ## Parts of regular patterns -/

section Parts

variable {letters : List UInt8} {taken : Bool} {rest : List Mark}

/-- A regular pattern is text up to its end or to a parameter. -/
theorem Regular.exists_front (hregular : Regular letters taken rest) :
    ∃ front behind taken', rest = front ++ behind ∧ (∀ m ∈ front, m.IsText) ∧
      Regular letters taken' behind ∧ (behind = [] ∨ Opening behind) := by
  induction hregular with
  | nil letters taken => exact ⟨[], [], taken, rfl, by simp, .nil _ _, .inl rfl⟩
  | @text letters taken m rest htext _ ih =>
      obtain ⟨front, behind, taken', rfl, hfront, hbehind, hend⟩ := ih
      exact ⟨m :: front, behind, taken', rfl, List.forall_mem_cons.mpr ⟨htext, hfront⟩, hbehind,
        hend⟩
  | param hletter hrest _ =>
      exact ⟨[], _, false, rfl, by simp, .param hletter hrest, .inr ⟨_, _, rfl, rfl⟩⟩
  | catchAll hname =>
      exact ⟨[], _, false, rfl, by simp, .catchAll hname, .inr ⟨_, _, rfl, rfl⟩⟩

theorem Regular.drop_front {front : List Mark} (hfront : ∀ m ∈ front, m.IsText)
    (hregular : Regular letters taken (front ++ rest)) : ∃ taken, Regular letters taken rest := by
  induction front generalizing taken with
  | nil => exact ⟨taken, hregular⟩
  | cons m front ih =>
      rw [List.forall_mem_cons] at hfront
      rw [List.cons_append] at hregular
      generalize hsplit : front ++ rest = tail at hregular
      cases hregular with
      | text _ hrest => exact ih hfront.2 (hsplit ▸ hrest)
      | param | catchAll => exact absurd hfront.1 not_isText_open

theorem Regular.isText_of_not_opens {m : Mark} (hregular : Regular letters taken (m :: rest))
    (hopens : ¬ m.opens = true) : m.IsText := by
  cases hregular with
  | text htext => exact htext
  | param | catchAll => exact absurd rfl hopens

/-- A regular pattern that begins with a parameter or a catch-all. -/
theorem Regular.of_opening (hregular : Regular letters taken rest) (hopening : Opening rest) :
    (∃ letter others tail, letters = letter :: others ∧ letter ∈ Pattern.letters ∧
      rest = ⟨123, false⟩ :: ⟨letter, false⟩ :: ⟨125, false⟩ :: tail) ∨
    ∃ name, IsName name ∧ rest = ⟨123, false⟩ :: ⟨42, false⟩ :: (name ++ [⟨125, false⟩]) := by
  obtain ⟨m, behind, hcons, hopens⟩ := hopening
  cases hregular with
  | nil => exact absurd hcons (by simp)
  | text htext =>
      rw [← (List.cons.inj hcons).1, htext.not_opens] at hopens
      exact absurd hopens (by simp)
  | param hletter _ => exact .inl ⟨_, _, _, rfl, hletter, rfl⟩
  | catchAll hname => exact .inr ⟨_, hname, rfl⟩

/-- What follows a parameter. -/
theorem Regular.behind_param {letter : UInt8} (hletter : letter ∈ Pattern.letters)
    (hregular : Regular letters taken
      (⟨123, false⟩ :: ⟨letter, false⟩ :: ⟨125, false⟩ :: rest)) :
    ∃ others, letters = letter :: others ∧ Regular others true rest := by
  generalize htail : (⟨letter, false⟩ :: ⟨125, false⟩ :: rest : List Mark) = tail at hregular
  cases hregular with
  | text htext => exact absurd htext not_isText_open
  | param _ hrest =>
      simp only [List.cons.injEq, Mark.mk.injEq, and_true, true_and] at htail
      obtain ⟨rfl, rfl⟩ := htail
      exact ⟨_, rfl, hrest⟩
  | catchAll =>
      simp only [List.cons.injEq, Mark.mk.injEq, and_true] at htail
      exact absurd htail.1 (ne_of_mem_letters hletter).1

/-- A text that ends a segment, and whether a slash is its end. -/
inductive SegmentEnd : Bool → List Mark → Prop where
  | slash : SegmentEnd true [⟨47, false⟩]
  | last {m : Mark} : m.IsText → m.byte ≠ 47 → SegmentEnd false [m]
  | cons {closed : Bool} {m : Mark} {rest : List Mark} :
      m.IsText → m.byte ≠ 47 → SegmentEnd closed rest → SegmentEnd closed (m :: rest)

theorem SegmentEnd.ne_nil {closed : Bool} {label : List Mark} (hend : SegmentEnd closed label) :
    label ≠ [] := by
  cases hend <;> exact List.cons_ne_nil _ _

theorem SegmentEnd.unique {closed closed' : Bool} {label : List Mark}
    (hend : SegmentEnd closed label) (hend' : SegmentEnd closed' label) : closed = closed' := by
  induction hend with
  | slash =>
      cases hend' with
      | slash => rfl
      | last _ hslash | cons _ hslash => exact absurd rfl hslash
  | last _ hslash =>
      cases hend' with
      | slash => exact absurd rfl hslash
      | last => rfl
      | cons _ _ hnil => exact absurd rfl hnil.ne_nil
  | cons _ hslash hlabel ih =>
      cases hend' with
      | slash => exact absurd rfl hslash
      | last => exact absurd rfl hlabel.ne_nil
      | cons _ _ hlabel' => exact ih hlabel'

theorem SegmentEnd.isText {closed : Bool} {label : List Mark} (hend : SegmentEnd closed label) :
    ∀ m ∈ label, m.IsText := by
  induction hend with
  | slash => decide
  | last htext _ => simpa using htext
  | cons htext _ _ ih => exact List.forall_mem_cons.mpr ⟨htext, ih⟩

/-- What follows a parameter is the end of its segment, and then a regular pattern. -/
theorem Regular.exists_segmentEnd (hregular : Regular letters true rest) :
    rest = [] ∨ ∃ closed label behind, SegmentEnd closed label ∧ rest = label ++ behind ∧
      (closed = false → behind = []) ∧ Regular letters false behind := by
  generalize htaken : true = taken at hregular
  induction hregular with
  | nil => exact .inl rfl
  | @text letters taken m rest htext hrest ih =>
      subst htaken
      right
      by_cases hslash : m.byte = 47
      · have hm : m = ⟨47, false⟩ := htext.eq_of_byte (by decide) hslash
        subst hm
        exact ⟨true, _, rest, .slash, rfl, by simp, hrest⟩
      · rcases ih (by simpa using hslash) with rfl | ⟨closed, label, behind, hend, rfl, hbehind⟩
        · exact ⟨false, [m], [], .last htext hslash, rfl, fun _ => rfl, .nil _ _⟩
        · exact ⟨closed, m :: label, behind, .cons htext hslash hend, rfl, hbehind⟩
  | param => simp at htaken
  | catchAll => simp at htaken

theorem segment_of_segmentEnd {closed : Bool} {label behind : List Mark}
    (hend : SegmentEnd closed label) (hbehind : closed = false → behind = []) :
    Node.segment (label ++ behind) = label.length := by
  induction hend with
  | slash =>
      simp only [Node.segment, List.cons_append, List.nil_append, List.length_cons]
      rw [List.takeWhile_cons_of_neg (by simp)]
      simp
  | @last m _ hslash =>
      rw [hbehind rfl]
      simp [Node.segment]
  | @cons closed m rest _ hslash _ ih =>
      have hrest := ih hbehind
      simp only [Node.segment, List.cons_append, List.length_cons] at hrest ⊢
      rw [List.takeWhile_cons_of_pos (by simpa using hslash), List.length_cons]
      omega

theorem named_cons {m : Mark} (hrest : Named rest)
    (hfirst : m.opens = true → ∀ first behind, rest = first :: behind → first.byte ≠ 47) :
    Named (m :: rest) := by
  intro m' first behind hsuffix hopens
  rcases List.suffix_cons_iff.mp hsuffix with hsame | hwithin
  · rw [List.cons.injEq] at hsame
    rw [hsame.1] at hopens
    exact hfirst hopens first behind hsame.2.symm
  · exact hrest m' first behind hwithin hopens

theorem Regular.named (hregular : Regular letters taken rest) : Named rest := by
  induction hregular with
  | nil =>
      intro m first behind hsuffix
      simp at hsuffix
  | text htext _ ih =>
      apply named_cons ih
      intro hopens
      rw [htext.not_opens] at hopens
      exact absurd hopens (by simp)
  | param hletter _ ih =>
      have hne := ne_of_mem_letters hletter
      apply named_cons
      · apply named_cons
        · exact named_cons ih (fun hopens => absurd hopens (by decide))
        · intro hopens
          simp [Mark.opens, hne] at hopens
      · intro _ first behind hsame
        rw [List.cons.injEq] at hsame
        rw [← hsame.1]
        exact hne.2.1
  | @catchAll letters name hname =>
      have hnamed : Named (name ++ [⟨125, false⟩]) := by
        have hbytes : ∀ m ∈ name ++ [⟨125, false⟩], m.byte ≠ 47 := by
          intro m hm
          rcases List.mem_append.mp hm with hm | hm
          · exact (hname.2 m hm).2.1
          · rw [List.mem_singleton.mp hm]
            decide
        intro m first behind hsuffix _
        exact hbytes first (hsuffix.subset (by simp))
      apply named_cons
      · exact named_cons hnamed (fun hopens => absurd hopens (by decide))
      · intro _ first behind hsame
        rw [List.cons.injEq] at hsame
        rw [← hsame.1]
        decide

end Parts

/-! ## Conflicts -/

section Conflicts

variable {p q : List Mark}

theorem Conflicts.symm (hconflicts : Conflicts p q) : Conflicts q p := by
  induction hconflicts with
  | same => exact .same
  | text htext _ ih => exact .text htext ih
  | param hletter _ ih => exact .param hletter ih
  | left p q => exact .right q p
  | right p q => exact .left q p

/-- A pattern conflicts with itself. -/
theorem Regular.conflicts_self {letters : List UInt8} {taken : Bool}
    (hregular : Regular letters taken p) : Conflicts p p := by
  induction hregular with
  | nil => exact .same
  | text htext _ ih => exact .text htext ih
  | param hletter _ ih => exact .param hletter ih
  | catchAll _ => exact .left _ _

theorem conflicts_nil_iff : Conflicts [] q ↔ q = [] := by
  constructor
  · intro hconflicts
    cases hconflicts
    rfl
  · rintro rfl
    exact .same

theorem conflicts_text_iff {m : Mark} (htext : m.IsText) :
    Conflicts (m :: p) q ↔ ∃ rest, q = m :: rest ∧ Conflicts p rest := by
  constructor
  · intro hconflicts
    cases hconflicts with
    | text _ hrest => exact ⟨_, rfl, hrest⟩
    | param | left | right => exact absurd htext not_isText_open
  · rintro ⟨rest, rfl, hrest⟩
    exact .text htext hrest

theorem conflicts_texts_iff {front : List Mark} (htext : ∀ m ∈ front, m.IsText) :
    Conflicts (front ++ p) (front ++ q) ↔ Conflicts p q := by
  induction front with
  | nil => exact Iff.rfl
  | cons m front ih =>
      rw [List.forall_mem_cons] at htext
      rw [List.cons_append, List.cons_append, conflicts_text_iff htext.1]
      simp only [List.cons.injEq, true_and, exists_eq_left']
      exact ih htext.2

theorem conflicts_param_iff {letter : UInt8} (hletter : letter ∈ Pattern.letters) :
    Conflicts (⟨123, false⟩ :: ⟨letter, false⟩ :: ⟨125, false⟩ :: p)
      (⟨123, false⟩ :: ⟨letter, false⟩ :: ⟨125, false⟩ :: q) ↔ Conflicts p q := by
  constructor
  · intro hconflicts
    cases hconflicts with
    | text htext => exact absurd htext not_isText_open
    | param _ hrest => exact hrest
    | left | right => exact absurd rfl (ne_of_mem_letters hletter).1
  · exact .param hletter

/-- A text and a parameter do not conflict. -/
theorem not_conflicts_opening {m : Mark} (htext : m.IsText) {rest : List Mark}
    (hopening : Opening rest) : ¬ Conflicts (m :: p) rest := by
  intro hconflicts
  obtain ⟨other, behind, rfl, hopens⟩ := hopening
  obtain ⟨_, hsame, -⟩ := (conflicts_text_iff htext).mp hconflicts
  rw [(List.cons.inj hsame).1, htext.not_opens] at hopens
  exact absurd hopens (by simp)

/-- Patterns with different texts behind a parameter do not conflict. -/
theorem not_conflicts_segmentEnds {closed closed' : Bool} {label label' : List Mark}
    (hend : SegmentEnd closed label) (hend' : SegmentEnd closed' label')
    (hp : closed = false → p = []) (hq : closed' = false → q = []) (hne : label ≠ label') :
    ¬ Conflicts (label ++ p) (label' ++ q) := by
  induction hend generalizing label' with
  | slash =>
      intro hconflicts
      obtain ⟨rest, hsame, -⟩ := (conflicts_text_iff (by decide)).mp hconflicts
      cases hend' with
      | slash => exact hne rfl
      | last _ hslash | cons _ hslash => exact hslash (congrArg Mark.byte (List.cons.inj hsame).1)
  | @last m htext hslash =>
      intro hconflicts
      obtain ⟨rest, hsame, hrest⟩ := (conflicts_text_iff htext).mp hconflicts
      change Conflicts p rest at hrest
      rw [hp rfl, conflicts_nil_iff] at hrest
      subst hrest
      cases hend' with
      | slash => exact hslash (congrArg Mark.byte (List.cons.inj hsame).1).symm
      | last _ _ => exact hne (congrArg (fun m => [m]) (List.cons.inj hsame).1.symm)
      | cons _ _ hend' => cases hend' <;> simp at hsame
  | @cons closed m label htext hslash hlabel ih =>
      intro hconflicts
      obtain ⟨rest, hsame, hrest⟩ := (conflicts_text_iff htext).mp hconflicts
      cases hend' with
      | slash => exact hslash (congrArg Mark.byte (List.cons.inj hsame).1).symm
      | last _ _ =>
          rw [hq rfl, List.append_nil, List.cons.injEq] at hsame
          rw [← hsame.2] at hrest
          have hnil := conflicts_nil_iff.mp hrest.symm
          cases hlabel <;> simp at hnil
      | @cons _ m' label' _ _ hlabel' =>
          rw [List.cons_append, List.cons.injEq] at hsame
          obtain ⟨rfl, rfl⟩ := hsame
          exact ih hlabel' hp (fun hsame => hne (by rw [hsame])) hrest

end Conflicts

end WebApp
