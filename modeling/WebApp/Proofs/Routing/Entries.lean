import Mathlib.Tactic
import WebApp.Routing.Tree

/-!
# What a tree of patterns holds

A tree holds a leaf under the marks on the way to it.  An attempt to add a pattern keeps what the
tree holds; one that succeeds adds the leaf of the pattern under its marks, one that fails adds
nothing.  However malformed the patterns are, this holds of every tree but a bare root, whose own
label a pattern is written into.
-/

namespace WebApp

/-! ## Finding a parameter -/

/-- The first mark opens the name of a parameter. -/
def Opening (marks : List Mark) : Prop :=
  ∃ m rest, marks = m :: rest ∧ m.opens = true

/-- No name begins with a slash. -/
def Named (marks : List Mark) : Prop :=
  ∀ m first behind, m :: first :: behind <:+ marks → m.opens = true → first.byte ≠ 47

theorem Named.drop {marks : List Mark} (hnamed : Named marks) (count : Nat) :
    Named (marks.drop count) :=
  fun m first behind hsuffix =>
    hnamed m first behind (hsuffix.trans (List.drop_suffix count marks))

/-- The end of a name lies in the segment in which the name goes on. -/
theorem paramEnd_le {last : UInt8} {count stop : Nat} {marks : List Mark}
    (hstop : paramEnd last count marks = .ok stop) :
    count < stop ∧ stop ≤ count + (marks.takeWhile fun m => m.byte != 47).length := by
  induction marks generalizing last count with
  | nil => simp [paramEnd] at hstop
  | cons m rest ih =>
      rw [paramEnd] at hstop
      have hstep : m.byte ≠ 47 → paramEnd m.byte (count + 1) rest = .ok stop →
          count < stop ∧
            stop ≤ count + ((m :: rest).takeWhile fun m => m.byte != 47).length := by
        intro hslash hrest
        obtain ⟨hlower, hupper⟩ := ih hrest
        rw [List.takeWhile_cons_of_pos (by simpa using hslash), List.length_cons]
        omega
      split at hstop
      next hclose =>
        have hslash : m.byte ≠ 47 := by
          rw [hclose]
          decide
        split at hstop
        · exact hstep hslash hstop
        · split at hstop
          · simp at hstop
          · rw [Except.ok.injEq] at hstop
            rw [List.takeWhile_cons_of_pos (by simpa using hslash), List.length_cons]
            omega
      next =>
        split at hstop
        · simp at hstop
        next hother => exact hstep (fun hslash => hother (.inr hslash)) hstop

/-- The first parameter begins with the first mark that opens one. -/
theorem findParam_some {place start stop : Nat} {marks : List Mark}
    (hfind : findParam place marks = .ok (some (start, stop))) :
    ∃ front m first behind, marks = front ++ m :: first :: behind ∧ start = place + front.length ∧
      (∀ other ∈ front, other.opens = false) ∧ m.opens = true ∧
      paramEnd first.byte (start + 2) behind = .ok stop := by
  induction marks generalizing place with
  | nil => simp [findParam] at hfind
  | cons m rest ih =>
      rw [findParam.eq_def] at hfind
      dsimp only at hfind
      split at hfind
      · simp at hfind
      · split at hfind
        next hopens =>
          cases rest with
          | nil => simp at hfind
          | cons first behind =>
              dsimp only at hfind
              split at hfind
              · simp at hfind
              · cases hend : paramEnd first.byte (place + 2) behind with
                | error e => simp [hend, Except.map] at hfind
                | ok other =>
                    simp only [hend, Except.map, Except.ok.injEq, Option.some.injEq,
                      Prod.mk.injEq] at hfind
                    obtain ⟨rfl, rfl⟩ := hfind
                    exact ⟨[], m, first, behind, rfl, rfl, by simp, hopens, hend⟩
        next hopens =>
          obtain ⟨front, m', first, behind, rfl, hstart, hfront, hopens', hend⟩ := ih hfind
          refine ⟨m :: front, m', first, behind, rfl, ?_, ?_, hopens', hend⟩
          · rw [hstart, List.length_cons]
            omega
          · rw [List.forall_mem_cons]
            exact ⟨by simpa using hopens, hfront⟩

theorem findParam_of_opening {place start stop : Nat} {marks : List Mark}
    (hopening : Opening marks) (hfind : findParam place marks = .ok (some (start, stop))) :
    start = place := by
  obtain ⟨front, m, first, behind, rfl, hstart, hfront, -, -⟩ := findParam_some hfind
  cases front with
  | nil => exact hstart
  | cons other front =>
      obtain ⟨m', rest, hsame, hopens⟩ := hopening
      rw [List.cons_append, List.cons.injEq] at hsame
      rw [← hsame.1, hfront other (List.mem_cons_self ..)] at hopens
      exact absurd hopens (by simp)

theorem not_opening_of_none {place : Nat} {marks : List Mark}
    (hfind : findParam place marks = .ok none) : ¬ Opening marks := by
  rintro ⟨m, rest, rfl, hopens⟩
  rw [findParam.eq_def] at hfind
  dsimp only at hfind
  rw [if_pos hopens] at hfind
  split at hfind
  · simp at hfind
  · split at hfind
    · simp at hfind
    · split at hfind
      · simp at hfind
      next first behind _ =>
        cases hend : paramEnd first.byte (place + 2) behind <;> simp [hend, Except.map] at hfind

/-- A parameter whose name does not begin with a slash ends in the segment in which it begins. -/
theorem param_le_segment {start stop : Nat} {marks : List Mark}
    (hfind : findParam 0 marks = .ok (some (start, stop))) (hnamed : Named (marks.drop start)) :
    stop - start ≤ Node.segment (marks.drop start) := by
  obtain ⟨front, m, first, behind, rfl, hstart, -, hopens, hend⟩ := findParam_some hfind
  have hdrop : (front ++ m :: first :: behind).drop start = m :: first :: behind := by
    rw [hstart, Nat.zero_add, List.drop_left]
  rw [hdrop] at hnamed ⊢
  have hslash := hnamed m first behind List.suffix_rfl hopens
  have hbrace : m.byte ≠ 47 := by
    intro hbyte
    simp [Mark.opens, hbyte] at hopens
  have hle := (paramEnd_le hend).2
  have hwithin := (List.takeWhile_sublist (fun m : Mark => m.byte != 47) (l := behind)).length_le
  rw [Node.segment, List.takeWhile_cons_of_pos (by simpa using hbrace),
    List.takeWhile_cons_of_pos (by simpa using hslash)]
  simp only [List.length_cons]
  omega

namespace Node

variable {α : Type}

/-- From the node down these marks lead to the leaf. -/
inductive Holds : Node α → List Mark → Leaf α → Prop where
  | here {n : Node α} {l : Leaf α} : n.leaf = some l → Holds n n.label l
  | static {n : Node α} {entry : UInt8 × Node α} {marks : List Mark} {l : Leaf α} :
      entry ∈ n.statics → Holds entry.2 marks l → Holds n (n.label ++ marks) l
  | suffix {n child : Node α} {marks : List Mark} {l : Leaf α} :
      child ∈ n.suffixes → Holds child marks l → Holds n (n.label ++ marks) l
  | wild {n child : Node α} {marks : List Mark} {l : Leaf α} :
      n.wild = some child → Holds child marks l → Holds n (n.label ++ marks) l

/-- Behind the label of the node these marks lead to the leaf. -/
def HoldsBelow (n : Node α) (marks : List Mark) (l : Leaf α) : Prop :=
  (marks = [] ∧ n.leaf = some l) ∨ (∃ entry ∈ n.statics, entry.2.Holds marks l) ∨
    (∃ child ∈ n.suffixes, child.Holds marks l) ∨ ∃ child, n.wild = some child ∧ child.Holds marks l

theorem holds_iff {n : Node α} {marks : List Mark} {l : Leaf α} :
    n.Holds marks l ↔ ∃ below, marks = n.label ++ below ∧ n.HoldsBelow below l := by
  constructor
  · intro hholds
    cases hholds with
    | here hleaf => exact ⟨[], by simp, .inl ⟨rfl, hleaf⟩⟩
    | static hmem hchild => exact ⟨_, rfl, .inr (.inl ⟨_, hmem, hchild⟩)⟩
    | suffix hmem hchild => exact ⟨_, rfl, .inr (.inr (.inl ⟨_, hmem, hchild⟩))⟩
    | wild hwild hchild => exact ⟨_, rfl, .inr (.inr (.inr ⟨_, hwild, hchild⟩))⟩
  · rintro ⟨below, rfl, ⟨rfl, hleaf⟩ | ⟨_, hmem, hchild⟩ | ⟨_, hmem, hchild⟩ | ⟨_, hwild, hchild⟩⟩
    · rw [List.append_nil]
      exact .here hleaf
    · exact .static hmem hchild
    · exact .suffix hmem hchild
    · exact .wild hwild hchild

/-! ## Parts of a node -/

section Parts

variable (n : Node α)

@[simp] theorem kind_bare (kind : NodeKind) (priority : Nat) (label : List Mark) :
    (bare kind priority label : Node α).kind = kind := rfl
@[simp] theorem label_bare (kind : NodeKind) (priority : Nat) (label : List Mark) :
    (bare kind priority label : Node α).label = label := rfl

@[simp] theorem kind_withLeaf (leaf : Leaf α) : (n.withLeaf leaf).kind = n.kind := rfl
@[simp] theorem kind_withSuffixes (suffixes : List (Node α)) :
    (n.withSuffixes suffixes).kind = n.kind := rfl

@[simp] theorem label_withLabel (label : List Mark) : (n.withLabel label).label = label := rfl
@[simp] theorem leaf_withLabel (label : List Mark) : (n.withLabel label).leaf = n.leaf := rfl
@[simp] theorem statics_withLabel (label : List Mark) :
    (n.withLabel label).statics = n.statics := rfl
@[simp] theorem suffixes_withLabel (label : List Mark) :
    (n.withLabel label).suffixes = n.suffixes := rfl
@[simp] theorem wild_withLabel (label : List Mark) : (n.withLabel label).wild = n.wild := rfl

@[simp] theorem label_withLeaf (leaf : Leaf α) : (n.withLeaf leaf).label = n.label := rfl
@[simp] theorem leaf_withLeaf (leaf : Leaf α) : (n.withLeaf leaf).leaf = some leaf := rfl
@[simp] theorem statics_withLeaf (leaf : Leaf α) : (n.withLeaf leaf).statics = n.statics := rfl
@[simp] theorem suffixes_withLeaf (leaf : Leaf α) : (n.withLeaf leaf).suffixes = n.suffixes := rfl
@[simp] theorem wild_withLeaf (leaf : Leaf α) : (n.withLeaf leaf).wild = n.wild := rfl

@[simp] theorem label_withStatics (statics : List (UInt8 × Node α)) :
    (n.withStatics statics).label = n.label := rfl
@[simp] theorem leaf_withStatics (statics : List (UInt8 × Node α)) :
    (n.withStatics statics).leaf = n.leaf := rfl
@[simp] theorem statics_withStatics (statics : List (UInt8 × Node α)) :
    (n.withStatics statics).statics = statics := rfl
@[simp] theorem suffixes_withStatics (statics : List (UInt8 × Node α)) :
    (n.withStatics statics).suffixes = n.suffixes := rfl
@[simp] theorem wild_withStatics (statics : List (UInt8 × Node α)) :
    (n.withStatics statics).wild = n.wild := rfl

@[simp] theorem label_withSuffixes (suffixes : List (Node α)) :
    (n.withSuffixes suffixes).label = n.label := rfl
@[simp] theorem leaf_withSuffixes (suffixes : List (Node α)) :
    (n.withSuffixes suffixes).leaf = n.leaf := rfl
@[simp] theorem statics_withSuffixes (suffixes : List (Node α)) :
    (n.withSuffixes suffixes).statics = n.statics := rfl
@[simp] theorem suffixes_withSuffixes (suffixes : List (Node α)) :
    (n.withSuffixes suffixes).suffixes = suffixes := rfl
@[simp] theorem wild_withSuffixes (suffixes : List (Node α)) :
    (n.withSuffixes suffixes).wild = n.wild := rfl

@[simp] theorem label_withWild (wild : Node α) : (n.withWild wild).label = n.label := rfl
@[simp] theorem leaf_withWild (wild : Node α) : (n.withWild wild).leaf = n.leaf := rfl
@[simp] theorem statics_withWild (wild : Node α) : (n.withWild wild).statics = n.statics := rfl
@[simp] theorem suffixes_withWild (wild : Node α) : (n.withWild wild).suffixes = n.suffixes := rfl
@[simp] theorem wild_withWild (wild : Node α) : (n.withWild wild).wild = some wild := rfl

end Parts

theorem not_holdsBelow_bare {kind : NodeKind} {priority : Nat} {label marks : List Mark}
    {l : Leaf α} : ¬ (bare kind priority label : Node α).HoldsBelow marks l := by
  simp [HoldsBelow, bare, Node.leaf, Node.statics, Node.suffixes, Node.wild]

theorem holds_bump {n : Node α} {marks : List Mark} {l : Leaf α} :
    n.bump.Holds marks l ↔ n.Holds marks l := by
  rw [holds_iff, holds_iff]
  exact Iff.rfl

/-- Behind the label of a node without a leaf and with one child. -/
theorem holdsBelow_only {kind : NodeKind} {priority : Nat} {label marks : List Mark} {byte : UInt8}
    {child : Node α} {l : Leaf α} :
    (node kind priority label none [(byte, child)] [] none).HoldsBelow marks l ↔
      child.Holds marks l := by
  simp [HoldsBelow, Node.leaf, Node.statics, Node.suffixes, Node.wild]

/-- A node whose label is cut holds the same. -/
theorem holds_cut {n : Node α} {length : Nat} {marks : List Mark} {l : Leaf α} :
    (n.cut length).Holds marks l ↔ n.Holds marks l := by
  unfold cut
  split
  next => exact Iff.rfl
  next m rest hdrop =>
    have hlabel : n.label = n.label.take length ++ m :: rest := by
      rw [← hdrop, List.take_append_drop]
    rw [holds_iff, holds_iff]
    constructor
    · rintro ⟨behind, rfl, hbehind⟩
      obtain ⟨below, rfl, hbelow⟩ := holds_iff.mp (holdsBelow_only.mp hbehind)
      refine ⟨below, ?_, hbelow⟩
      conv_rhs => rw [hlabel]
      exact (List.append_assoc ..).symm
    · rintro ⟨below, rfl, hbelow⟩
      refine ⟨(m :: rest) ++ below, ?_, ?_⟩
      · conv_lhs => rw [hlabel]
        exact List.append_assoc ..
      · exact holdsBelow_only.mpr (holds_iff.mpr ⟨below, rfl, hbelow⟩)

/-! ## Adding a leaf -/

/-- What is held afterwards is what was held before, and the new leaf when there was no error. -/
def Adds (before after : List Mark → Leaf α → Prop) (e : Option InsertError) (marks : List Mark)
    (leaf : Leaf α) : Prop :=
  ∀ m l, after m l ↔ before m l ∨ (e = none ∧ m = marks ∧ l = leaf)

section Lifting

variable {e : Option InsertError} {rest : List Mark} {leaf : Leaf α}

/-- What is added behind the label of a node is added at the node. -/
theorem Adds.atNode {n n' : Node α} (hadds : Adds n.HoldsBelow n'.HoldsBelow e rest leaf)
    (hlabel : n'.label = n.label) : Adds n.Holds n'.Holds e (n.label ++ rest) leaf := by
  intro marks l
  rw [holds_iff, holds_iff, hlabel]
  constructor
  · rintro ⟨below, rfl, hbelow⟩
    rcases (hadds below l).mp hbelow with hbelow | ⟨hnone, rfl, rfl⟩
    · exact .inl ⟨below, rfl, hbelow⟩
    · exact .inr ⟨hnone, rfl, rfl⟩
  · rintro (⟨below, rfl, hbelow⟩ | ⟨hnone, rfl, rfl⟩)
    · exact ⟨below, rfl, (hadds below l).mpr (.inl hbelow)⟩
    · exact ⟨rest, rfl, (hadds rest l).mpr (.inr ⟨hnone, rfl, rfl⟩)⟩

theorem adds_withLeaf {n : Node α} (hleaf : n.leaf = none) :
    Adds n.HoldsBelow (n.withLeaf leaf).HoldsBelow none [] leaf := by
  intro marks l
  simp only [HoldsBelow, hleaf, leaf_withLeaf, statics_withLeaf, suffixes_withLeaf, wild_withLeaf,
    Option.some.injEq]
  grind

theorem Adds.statics {n : Node α} {statics : List (UInt8 × Node α)}
    (hadds : Adds (fun marks l => ∃ entry ∈ n.statics, entry.2.Holds marks l)
      (fun marks l => ∃ entry ∈ statics, entry.2.Holds marks l) e rest leaf) :
    Adds n.HoldsBelow (n.withStatics statics).HoldsBelow e rest leaf := by
  intro marks l
  have hentries : (∃ entry ∈ statics, entry.2.Holds marks l) ↔ _ := hadds marks l
  simp only [HoldsBelow, leaf_withStatics, statics_withStatics, suffixes_withStatics,
    wild_withStatics, hentries]
  grind

theorem Adds.suffixes {n : Node α} {suffixes : List (Node α)}
    (hadds : Adds (fun marks l => ∃ child ∈ n.suffixes, child.Holds marks l)
      (fun marks l => ∃ child ∈ suffixes, child.Holds marks l) e rest leaf) :
    Adds n.HoldsBelow (n.withSuffixes suffixes).HoldsBelow e rest leaf := by
  intro marks l
  have hchildren : (∃ child ∈ suffixes, child.Holds marks l) ↔ _ := hadds marks l
  simp only [HoldsBelow, leaf_withSuffixes, statics_withSuffixes, suffixes_withSuffixes,
    wild_withSuffixes, hchildren]
  grind

theorem Adds.wild {n child : Node α}
    (hadds : Adds (fun marks l => ∃ child, n.wild = some child ∧ child.Holds marks l)
      child.Holds e rest leaf) :
    Adds n.HoldsBelow (n.withWild child).HoldsBelow e rest leaf := by
  intro marks l
  have hchild : child.Holds marks l ↔ _ := hadds marks l
  simp only [HoldsBelow, leaf_withWild, statics_withWild, suffixes_withWild, wild_withWild,
    Option.some.injEq, exists_eq_left', hchild]
  grind

end Lifting

/-- The leaf has its place, which is behind these marks where no name begins with a slash. -/
def AddsNear (before after : List Mark → Leaf α → Prop) (e : Option InsertError)
    (rest : List Mark) (leaf : Leaf α) : Prop :=
  ∃ spot, Adds before after e spot leaf ∧ (Named rest → spot = rest)

theorem AddsNear.atNode {n n' : Node α} {e : Option InsertError} {rest : List Mark} {leaf : Leaf α}
    (hadds : AddsNear n.HoldsBelow n'.HoldsBelow e rest leaf) (hlabel : n'.label = n.label) :
    AddsNear n.Holds n'.Holds e (n.label ++ rest) leaf := by
  obtain ⟨spot, hadds, hspot⟩ := hadds
  refine ⟨n.label ++ spot, hadds.atNode hlabel, ?_⟩
  intro hnamed
  have hrest := hnamed.drop n.label.length
  rw [List.drop_left] at hrest
  rw [hspot hrest]

theorem AddsNear.of_bare {kind : NodeKind} {priority : Nat} {label rest : List Mark} {n : Node α}
    {e : Option InsertError} {leaf : Leaf α}
    (hadds : AddsNear (bare kind priority label).HoldsBelow n.HoldsBelow e rest leaf)
    (hlabel : n.label = label) : AddsNear (fun _ _ => False) n.Holds e (label ++ rest) leaf := by
  obtain ⟨spot, hadds, hspot⟩ := hadds.atNode hlabel
  refine ⟨spot, ?_, hspot⟩
  intro marks l
  rw [hadds marks l, holds_iff]
  simp [not_holdsBelow_bare]

/-- What becomes of a pattern that is put into a node: it is refused, it ends in the node, or it
goes on there with a parameter. -/
inductive Planted (leaf : Leaf α) (rest : List Mark) (n : Node α) : Attempt α → Prop where
  | refused (e : InsertError) : Planted leaf rest n (some e, n)
  | relabelled (e : InsertError) (label : List Mark) :
      ¬ Opening rest → Planted leaf rest n (some e, n.withLabel label)
  | ended : ¬ Opening rest → Planted leaf rest n (none, (n.withLabel rest).withLeaf leaf)
  | parameter {e : Option InsertError} {child : Node α} :
      AddsNear (fun _ _ => False) child.Holds e rest leaf →
      Planted leaf rest n (e, n.withWild child)
  | text {front behind : List Mark} {e : Option InsertError} {child : Node α} :
      ¬ Opening rest → rest = front ++ behind →
      AddsNear (fun _ _ => False) child.Holds e behind leaf →
      Planted leaf rest n (e, (n.withLabel front).withWild child)

/-- A child behind the label of a node where there was none. -/
theorem AddsNear.wild {n child : Node α} {e : Option InsertError} {rest : List Mark}
    {leaf : Leaf α} (hwild : n.wild = none)
    (hadds : AddsNear (fun _ _ => False) child.Holds e rest leaf) :
    AddsNear n.HoldsBelow (n.withWild child).HoldsBelow e rest leaf := by
  obtain ⟨spot, hadds, hspot⟩ := hadds
  refine ⟨spot, ?_, hspot⟩
  apply Adds.wild
  intro marks l
  simp [hwild, hadds marks l]

/-- An end of the segment behind a node where there was none. -/
theorem AddsNear.suffix {n child : Node α} {e : Option InsertError} {rest : List Mark}
    {leaf : Leaf α} (hsuffixes : n.suffixes = [])
    (hadds : AddsNear (fun _ _ => False) child.Holds e rest leaf) :
    AddsNear n.HoldsBelow (n.withSuffixes [child]).HoldsBelow e rest leaf := by
  obtain ⟨spot, hadds, hspot⟩ := hadds
  refine ⟨spot, ?_, hspot⟩
  apply Adds.suffixes
  intro marks l
  simp [hsuffixes, hadds marks l]

/-- A pattern that begins with a parameter is put behind the label of the node. -/
theorem Planted.adds_of_opening {leaf : Leaf α} {rest : List Mark} {n : Node α}
    {attempt : Attempt α} (hplanted : Planted leaf rest n attempt) (hopening : Opening rest)
    (hwild : n.wild = none) :
    attempt.2.label = n.label ∧
      AddsNear n.HoldsBelow attempt.2.HoldsBelow attempt.1 rest leaf := by
  cases hplanted with
  | refused e => exact ⟨rfl, rest, by simp [Adds], fun _ => rfl⟩
  | relabelled _ _ hnot | ended hnot | text hnot => exact absurd hopening hnot
  | parameter hchild => exact ⟨rfl, hchild.wild hwild⟩

/-- A pattern that is put into a bare node is all that the node holds. -/
theorem Planted.adds_of_bare {leaf : Leaf α} {rest : List Mark} {kind : NodeKind} {priority : Nat}
    {attempt : Attempt α} (hplanted : Planted leaf rest (bare kind priority []) attempt) :
    AddsNear (fun _ _ => False) attempt.2.Holds attempt.1 rest leaf := by
  have hbelow : ∀ label marks l,
      ¬ ((bare kind priority [] : Node α).withLabel label).HoldsBelow marks l := by
    intro label marks l
    exact not_holdsBelow_bare
  cases hplanted with
  | refused e =>
      refine ⟨rest, ?_, fun _ => rfl⟩
      intro marks l
      simp [holds_iff, not_holdsBelow_bare]
  | relabelled e label =>
      refine ⟨rest, ?_, fun _ => rfl⟩
      intro marks l
      simp [holds_iff, hbelow]
  | ended =>
      refine ⟨rest, ?_, fun _ => rfl⟩
      have hadds : Adds ((bare kind priority [] : Node α).withLabel rest).Holds
          (((bare kind priority [] : Node α).withLabel rest).withLeaf leaf).Holds none (rest ++ [])
          leaf := (adds_withLeaf rfl).atNode rfl
      intro marks l
      simp [hadds marks l, holds_iff, hbelow]
  | parameter hchild => exact (hchild.wild rfl).of_bare rfl
  | @text front behind e child _ hrest hchild =>
      subst hrest
      exact (AddsNear.wild (n := bare kind priority front) rfl hchild).of_bare rfl

section Parameters

variable {leaf : Leaf α} {rest : List Mark} {n : Node α} {start stop : Nat}

/-- What lies before the first parameter is the label of the node. -/
theorem Planted.of_child (hfind : findParam 0 rest = .ok (some (start, stop))) {child : Node α}
    {e : Option InsertError}
    (hchild : AddsNear (fun _ _ => False) child.Holds e (rest.drop start) leaf) :
    Planted leaf rest n
      (e, (if start = 0 then n else n.withLabel (rest.take start)).withWild child) := by
  split
  next hstart =>
    rw [hstart] at hchild
    exact .parameter hchild
  next hstart =>
    have hnot : ¬ Opening rest := fun hopening => hstart (findParam_of_opening hopening hfind)
    exact .text hnot (List.take_append_drop start rest).symm hchild

theorem Planted.of_refused (hfind : findParam 0 rest = .ok (some (start, stop)))
    (e : InsertError) :
    Planted leaf rest n (some e, if start = 0 then n else n.withLabel (rest.take start)) := by
  split
  next => exact .refused e
  next hstart =>
    exact .relabelled e _ fun hopening => hstart (findParam_of_opening hopening hfind)

/-- The parameter, the end of its segment, and what lies behind make up the whole. -/
theorem parameter_append (hfind : findParam 0 rest = .ok (some (start, stop)))
    (hnamed : Named (rest.drop start)) :
    (rest.drop start).take (stop - start) ++
      (((rest.drop start).take (segment (rest.drop start))).drop (stop - start) ++
        (rest.drop start).drop (segment (rest.drop start))) = rest.drop start := by
  have hle := param_le_segment hfind hnamed
  rw [← List.append_assoc]
  have htake : (rest.drop start).take (stop - start) =
      ((rest.drop start).take (segment (rest.drop start))).take (stop - start) := by
    rw [List.take_take, Nat.min_eq_left hle]
  rw [htake, List.take_append_drop, List.take_append_drop]

end Parameters

mutual

theorem plant_planted (leaf : Leaf α) (rest : List Mark) (n : Node α) :
    Planted leaf rest n (plant leaf rest n) := by
  unfold plant
  split
  next e hfind => exact .refused e
  next hfind => exact .ended (not_opening_of_none hfind)
  next start stop hfind =>
    have hless := length_drop_segment_lt (ne_nil_of_findParam hfind) start
    dsimp only
    split
    · split
      next =>
        apply Planted.of_child hfind
        have hleaf : AddsNear (bare .catchAll 1 (rest.drop start)).HoldsBelow
            ((bare .catchAll 1 (rest.drop start)).withLeaf leaf).HoldsBelow none [] leaf :=
          ⟨[], adds_withLeaf rfl, fun _ => rfl⟩
        simpa using hleaf.of_bare rfl
      next => exact .refused _
    · split
      next => exact .of_refused hfind _
      next =>
        split
        next hempty =>
          apply Planted.of_child hfind
          obtain ⟨hlabel, hbelow⟩ := plantBelow_adds leaf
            ((rest.drop start).drop (segment (rest.drop start)))
            (bare .param 1 ((rest.drop start).take (stop - start))) (fun _ => rfl) (fun _ => rfl)
          obtain ⟨spot, hadds, hspot⟩ := hbelow.of_bare hlabel
          refine ⟨spot, hadds, ?_⟩
          intro hnamed
          have hwhole := parameter_append hfind hnamed
          rw [List.isEmpty_iff.mp hempty, List.nil_append] at hwhole
          rw [hwhole] at hspot
          exact hspot hnamed
        next =>
          apply Planted.of_child hfind
          obtain ⟨hlabel, hbelow⟩ := plantBelow_adds leaf
            ((rest.drop start).drop (segment (rest.drop start)))
            (bare .static 1 (((rest.drop start).take (segment (rest.drop start))).drop
              (stop - start))) (fun _ => rfl) (fun _ => rfl)
          have hchild := AddsNear.suffix (n := bare .param 1 ((rest.drop start).take (stop - start)))
            rfl (hbelow.of_bare hlabel)
          obtain ⟨spot, hadds, hspot⟩ := hchild.of_bare rfl
          refine ⟨spot, hadds, ?_⟩
          intro hnamed
          rw [parameter_append hfind hnamed] at hspot
          exact hspot hnamed
termination_by 2 * rest.length
decreasing_by all_goals omega

theorem plantBelow_adds (leaf : Leaf α) (rest : List Mark) (n : Node α)
    (hwild : Opening rest → n.wild = none) (hleaf : rest = [] → n.leaf = none) :
    (plantBelow leaf rest n).2.label = n.label ∧
    AddsNear n.HoldsBelow (plantBelow leaf rest n).2.HoldsBelow (plantBelow leaf rest n).1 rest
      leaf := by
  match rest with
  | [] =>
      simp only [plantBelow]
      exact ⟨rfl, [], adds_withLeaf (hleaf rfl), fun _ => rfl⟩
  | m :: behind =>
      rw [plantBelow]
      split
      next hopens =>
        have hopening : Opening (m :: behind) := ⟨m, behind, rfl, hopens⟩
        exact (plant_planted leaf (m :: behind) n).adds_of_opening hopening (hwild hopening)
      next =>
        obtain ⟨spot, hadds, hspot⟩ :=
          (plant_planted leaf (m :: behind) (bare .static 1 [])).adds_of_bare
        refine ⟨rfl, spot, ?_, hspot⟩
        apply Adds.statics
        intro marks l
        simp [or_and_right, exists_or, hadds marks l]
termination_by 2 * rest.length + 1

end

/-! ## Adding a pattern to a tree -/

theorem addsNear_refused (held : List Mark → Leaf α → Prop) (e : InsertError) (rest : List Mark)
    (leaf : Leaf α) : AddsNear held held (some e) rest leaf :=
  ⟨rest, fun marks l => by simp, fun _ => rfl⟩

/-- What is said of a set may be said of the same set. -/
theorem AddsNear.congr {before before' after after' : List Mark → Leaf α → Prop}
    {e : Option InsertError} {rest : List Mark} {leaf : Leaf α}
    (hadds : AddsNear before after e rest leaf)
    (hbefore : ∀ marks l, before' marks l ↔ before marks l)
    (hafter : ∀ marks l, after' marks l ↔ after marks l) :
    AddsNear before' after' e rest leaf := by
  obtain ⟨spot, hadds, hspot⟩ := hadds
  refine ⟨spot, ?_, hspot⟩
  intro marks l
  rw [hbefore, hafter]
  exact hadds marks l

/-- What is held elsewhere stays. -/
theorem AddsNear.beside {before after : List Mark → Leaf α → Prop} {e : Option InsertError}
    {rest : List Mark} {leaf : Leaf α} (hadds : AddsNear before after e rest leaf)
    (elsewhere : List Mark → Leaf α → Prop) :
    AddsNear (fun marks l => before marks l ∨ elsewhere marks l)
      (fun marks l => after marks l ∨ elsewhere marks l) e rest leaf := by
  obtain ⟨spot, hadds, hspot⟩ := hadds
  refine ⟨spot, ?_, hspot⟩
  intro marks l
  dsimp only
  rw [hadds marks l]
  exact or_right_comm

theorem take_common (marks other : List Mark) :
    marks.take (common marks other) = other.take (common marks other) := by
  fun_induction common marks other <;> simp_all

/-- The marks behind what two lists have in common begin differently. -/
theorem exists_common (marks other : List Mark) :
    ∃ front rest below, marks = front ++ rest ∧ other = front ++ below ∧
      common marks other = front.length ∧ ∀ m p q, rest = m :: p → below ≠ m :: q := by
  fun_induction common marks other with
  | case1 as m bs ih =>
      obtain ⟨front, rest, below, rfl, rfl, hcommon, hdiffer⟩ := ih
      exact ⟨m :: front, rest, below, rfl, rfl, by rw [hcommon, List.length_cons], hdiffer⟩
  | case2 a as b bs hne =>
      refine ⟨[], a :: as, b :: bs, rfl, rfl, rfl, ?_⟩
      intro m p q hrest hbelow
      exact hne ((List.cons.inj hrest).1.trans (List.cons.inj hbelow).1.symm)
  | case3 marks other hnil =>
      refine ⟨[], marks, other, rfl, rfl, rfl, ?_⟩
      intro m p q hrest hbelow
      exact hnil m p m q hrest hbelow

theorem perm_advance (before : List (UInt8 × Node α)) (entry : UInt8 × Node α)
    (after : List (UInt8 × Node α)) :
    (advance before entry after).Perm (entry :: (before ++ after)) := by
  unfold advance
  dsimp only
  refine List.perm_middle.trans (List.Perm.cons entry ?_)
  rw [← List.append_assoc]
  apply List.Perm.append_right
  refine List.perm_append_comm.trans ?_
  refine ((List.reverse_perm _).append (List.reverse_perm _)).trans ?_
  rw [List.takeWhile_append_dropWhile]

theorem mem_advance {before after : List (UInt8 × Node α)} {entry other : UInt8 × Node α} :
    other ∈ advance before entry after ↔ other = entry ∨ other ∈ before ∨ other ∈ after := by
  rw [(perm_advance before entry after).mem_iff, List.mem_cons, List.mem_append]

theorem perm_placeSuffix (n : Node α) (suffixes : List (Node α)) :
    (placeSuffix n suffixes).Perm (n :: suffixes) := by
  unfold placeSuffix
  refine List.perm_middle.trans (List.Perm.cons n ?_)
  rw [List.take_append_drop]

theorem mem_placeSuffix {n child : Node α} {suffixes : List (Node α)} :
    child ∈ placeSuffix n suffixes ↔ child = n ∨ child ∈ suffixes := by
  rw [(perm_placeSuffix n suffixes).mem_iff, List.mem_cons]

/-- An end of a segment among others. -/
theorem plantSuffix_adds (leaf : Leaf α) (rest : List Mark) (n : Node α) :
    (plantSuffix leaf rest n).2.label = n.label ∧
      AddsNear n.HoldsBelow (plantSuffix leaf rest n).2.HoldsBelow (plantSuffix leaf rest n).1 rest
        leaf := by
  unfold plantSuffix
  dsimp only
  split
  next => exact ⟨rfl, addsNear_refused _ _ _ _⟩
  next =>
    obtain ⟨hlabel, hbelow⟩ := plantBelow_adds leaf (rest.drop (segment rest))
      (bare .static 1 (rest.take (segment rest))) (fun _ => rfl) (fun _ => rfl)
    obtain ⟨spot, hadds, hspot⟩ := hbelow.of_bare hlabel
    rw [List.take_append_drop] at hspot
    refine ⟨rfl, spot, ?_, hspot⟩
    apply Adds.suffixes
    intro marks l
    simp [mem_placeSuffix, or_and_right, exists_or, hadds marks l, or_comm]

theorem cut_of_lt {n : Node α} {length : Nat} (hlength : length < n.label.length) :
    (n.cut length).label = n.label.take length ∧ (n.cut length).leaf = none ∧
      (n.cut length).wild = none := by
  unfold cut
  split
  next hdrop =>
    rw [List.drop_eq_nil_iff] at hdrop
    omega
  next => exact ⟨rfl, rfl, rfl⟩

theorem insertWild_eq_none_iff {route : Pattern} {leaf : Leaf α} {rest : List Mark}
    {wild : Option (Node α)} : insertWild route leaf rest wild = none ↔ wild = none := by
  cases wild with
  | none => simp [insertWild]
  | some child =>
      rw [insertWild]
      split <;> simp

mutual

theorem insertAt_adds (route : Pattern) (leaf : Leaf α) (rest : List Mark) (n : Node α) :
    AddsNear n.Holds (n.insertAt route leaf rest).2.Holds (n.insertAt route leaf rest).1 rest
      leaf := by
  match n with
  | .node kind priority label held statics suffixes wild =>
      have htake := take_common rest label
      have hrest : label.take (common rest label) ++ rest.drop (common rest label) = rest := by
        rw [← htake, List.take_append_drop]
      let n : Node α := .node kind (priority + 1) label held statics suffixes wild
      rw [insertAt]
      split
      next hcut =>
        obtain ⟨hlabel, hleaf, hwild⟩ := cut_of_lt (n := n) hcut
        obtain ⟨hsame, hbelow⟩ := plantBelow_adds leaf (rest.drop (common rest label))
          (n.cut (common rest label)) (fun _ => hwild) (fun _ => hleaf)
        have hadds := hbelow.atNode hsame
        rw [hlabel] at hadds
        change AddsNear _ _ _ (label.take (common rest label) ++ _) leaf at hadds
        rw [hrest] at hadds
        apply hadds.congr ?_ (fun _ _ => Iff.rfl)
        intro marks l
        rw [holds_cut]
        exact holds_bump.symm
      next hcut =>
        have hlabel : label.take (common rest label) = label :=
          List.take_of_length_le (Nat.le_of_not_lt hcut)
        rw [hlabel] at hrest
        have hlift : ∀ attempt : Attempt α, attempt.2.label = label →
            AddsNear n.HoldsBelow attempt.2.HoldsBelow attempt.1
              (rest.drop (common rest label)) leaf →
            AddsNear (node kind priority label held statics suffixes wild).Holds attempt.2.Holds
              attempt.1 rest leaf := by
          intro attempt hsame hbelow
          have hadds := hbelow.atNode (n := n) hsame
          change AddsNear _ _ _ (label ++ _) leaf at hadds
          rw [hrest] at hadds
          exact hadds.congr (fun _ _ => holds_bump.symm) (fun _ _ => Iff.rfl)
        split
        next hdrop =>
          rw [hdrop] at hlift
          split
          next => exact hlift _ rfl (addsNear_refused _ _ _ _)
          next hheld =>
            have hleaf : held = none := by simpa using hheld
            exact hlift _ rfl ⟨[], adds_withLeaf hleaf, fun _ => rfl⟩
        next next behind hdrop =>
          rw [hdrop] at hlift
          split
          next =>
            split
            next e suffixes' hinsert =>
              obtain ⟨spot, hadds, hspot⟩ := insertSuffixes_adds route leaf _ suffixes hinsert
              exact hlift (e, n.withSuffixes suffixes') rfl ⟨spot, hadds.suffixes, hspot⟩
            next =>
              obtain ⟨hsame, hbelow⟩ := plantSuffix_adds leaf (next :: behind) n
              exact hlift _ hsame hbelow
          next =>
            split
            next hopens =>
              split
              next e child hinsert =>
                obtain ⟨spot, hadds, hspot⟩ := insertWild_adds route leaf _ wild hinsert
                exact hlift (e, n.withWild child) rfl ⟨spot, hadds.wild, hspot⟩
              next hinsert =>
                have hwild : wild = none := insertWild_eq_none_iff.mp hinsert
                obtain ⟨hsame, hbelow⟩ := plantBelow_adds leaf (next :: behind) n
                  (fun _ => hwild) (by simp)
                exact hlift _ hsame hbelow
            next hopens =>
              split
              next e statics' hinsert =>
                obtain ⟨spot, hadds, hspot⟩ :=
                  insertStatics_adds route leaf _ next.byte [] statics hinsert
                exact hlift (e, n.withStatics statics') rfl ⟨spot, hadds.statics, hspot⟩
              next =>
                have hnot : ¬ Opening (next :: behind) := by
                  rintro ⟨m, others, hcons, hm⟩
                  rw [(List.cons.inj hcons).1] at hopens
                  exact hopens hm
                obtain ⟨hsame, hbelow⟩ := plantBelow_adds leaf (next :: behind) n
                  (fun hopening => absurd hopening hnot) (by simp)
                exact hlift _ hsame hbelow
termination_by structural n

theorem insertSuffixes_adds (route : Pattern) (leaf : Leaf α) (rest : List Mark)
    (suffixes : List (Node α)) {e : Option InsertError} {suffixes' : List (Node α)}
    (hinsert : insertSuffixes route leaf rest suffixes = some (e, suffixes')) :
    AddsNear (fun marks l => ∃ child ∈ suffixes, child.Holds marks l)
      (fun marks l => ∃ child ∈ suffixes', child.Holds marks l) e rest leaf := by
  match suffixes with
  | [] => simp [insertSuffixes] at hinsert
  | n :: others =>
      rw [insertSuffixes] at hinsert
      split at hinsert
      next =>
        simp only [Option.some.injEq, Prod.mk.injEq] at hinsert
        obtain ⟨rfl, rfl⟩ := hinsert
        have hadds := (insertAt_adds route leaf rest n).beside fun marks l =>
          ∃ child ∈ others, child.Holds marks l
        exact hadds.congr (by simp) (by simp)
      next =>
        obtain ⟨⟨e', others'⟩, hothers, hsame⟩ := Option.map_eq_some_iff.mp hinsert
        simp only [Prod.mk.injEq] at hsame
        obtain ⟨rfl, rfl⟩ := hsame
        have hadds := (insertSuffixes_adds route leaf rest others hothers).beside n.Holds
        exact hadds.congr (by simp [or_comm]) (by simp [or_comm])
termination_by structural suffixes

theorem insertWild_adds (route : Pattern) (leaf : Leaf α) (rest : List Mark)
    (wild : Option (Node α)) {e : Option InsertError} {child : Node α}
    (hinsert : insertWild route leaf rest wild = some (e, child)) :
    AddsNear (fun marks l => ∃ child, wild = some child ∧ child.Holds marks l) child.Holds e rest
      leaf := by
  match wild with
  | none => simp [insertWild] at hinsert
  | some n =>
      rw [insertWild] at hinsert
      split at hinsert
      next =>
        simp only [Option.some.injEq, Prod.mk.injEq] at hinsert
        obtain ⟨rfl, rfl⟩ := hinsert
        exact (addsNear_refused n.Holds _ rest leaf).congr (by simp) (fun _ _ => holds_bump)
      next =>
        rw [Option.some.injEq] at hinsert
        have hadds := insertAt_adds route leaf rest n
        rw [hinsert] at hadds
        exact hadds.congr (by simp) (by simp)
termination_by structural wild

theorem insertStatics_adds (route : Pattern) (leaf : Leaf α) (rest : List Mark) (byte : UInt8)
    (before statics : List (UInt8 × Node α)) {e : Option InsertError}
    {statics' : List (UInt8 × Node α)}
    (hinsert : insertStatics route leaf rest byte before statics = some (e, statics')) :
    AddsNear (fun marks l => ∃ entry ∈ before ++ statics, entry.2.Holds marks l)
      (fun marks l => ∃ entry ∈ statics', entry.2.Holds marks l) e rest leaf := by
  match statics with
  | [] => simp [insertStatics] at hinsert
  | (other, n) :: after =>
      rw [insertStatics] at hinsert
      split at hinsert
      next =>
        simp only [Option.some.injEq, Prod.mk.injEq] at hinsert
        obtain ⟨rfl, rfl⟩ := hinsert
        have hadds := (insertAt_adds route leaf rest n).beside fun marks l =>
          ∃ entry ∈ before ++ after, entry.2.Holds marks l
        apply hadds.congr
        · intro marks l
          simp [or_and_right, exists_or, or_left_comm]
        · intro marks l
          simp [mem_advance, or_and_right, exists_or, or_left_comm]
      next =>
        have hadds := insertStatics_adds route leaf rest byte ((other, n) :: before) after hinsert
        apply hadds.congr ?_ (fun _ _ => Iff.rfl)
        intro marks l
        simp [or_and_right, exists_or, or_left_comm]
termination_by structural statics

end

/-- A leaf that is held after a pattern was put into a node was held before, or is the new one. -/
theorem Planted.old_or_new {leaf : Leaf α} {rest : List Mark} {n : Node α} {attempt : Attempt α}
    (hplanted : Planted leaf rest n attempt) {marks : List Mark} {l : Leaf α}
    (hholds : attempt.2.Holds marks l) :
    (∃ marks', n.Holds marks' l) ∨ (attempt.1 = none ∧ l = leaf) := by
  obtain ⟨below, -, hbelow⟩ := holds_iff.mp hholds
  have hold : n.HoldsBelow below l → ∃ marks', n.Holds marks' l :=
    fun hbelow => ⟨_, holds_iff.mpr ⟨below, rfl, hbelow⟩⟩
  cases hplanted with
  | refused e => exact .inl (hold hbelow)
  | relabelled e label => exact .inl (hold hbelow)
  | ended =>
      rcases hbelow with ⟨hnil, hleaf⟩ | hchild
      · exact .inr ⟨rfl, (Option.some.inj hleaf).symm⟩
      · exact .inl (hold (.inr hchild))
  | parameter hchild | text _ _ hchild =>
      obtain ⟨spot, hadds, -⟩ := hchild
      rcases hbelow with hleaf | hstatic | hsuffix | ⟨child, hwild, hholds⟩
      · exact .inl (hold (.inl hleaf))
      · exact .inl (hold (.inr (.inl hstatic)))
      · exact .inl (hold (.inr (.inr (.inl hsuffix))))
      · rw [← Option.some.inj hwild] at hholds
        have hnew := (hadds below l).mp hholds
        simp only [false_or] at hnew
        exact .inr ⟨hnew.1, hnew.2.2⟩

/-- A leaf that is held after a pattern was added was held before, or is the one of the pattern. -/
theorem old_or_new_of_insert {n : Node α} {pattern : String} {value : α} {marks : List Mark}
    {l : Leaf α} (hholds : (n.insert pattern value).2.Holds marks l) :
    (∃ marks', n.Holds marks' l) ∨
      ((n.insert pattern value).1 = none ∧ l.value = value) := by
  unfold insert at hholds ⊢
  split at hholds
  next => exact .inl ⟨marks, hholds⟩
  next route names _ =>
    dsimp only at hholds ⊢
    split at hholds
    next hroot =>
      rw [if_pos hroot]
      rcases (plant_planted _ _ _).old_or_new hholds with ⟨marks', hold⟩ | ⟨hnone, hnew⟩
      · exact .inl ⟨marks', holds_bump.mp hold⟩
      · exact .inr ⟨hnone, by rw [hnew]⟩
    next hroot =>
      rw [if_neg hroot]
      obtain ⟨spot, hadds, -⟩ := insertAt_adds route ⟨value, names⟩ route.marks n
      rcases (hadds marks l).mp hholds with hold | ⟨hnone, -, hnew⟩
      · exact .inl ⟨marks, hold⟩
      · exact .inr ⟨hnone, by rw [hnew]⟩

/-- An attempt to add a pattern adds it near its place, unless the tree was a bare root with a
leaf. -/
theorem insert_addsNear {n : Node α} {pattern : String} {value : α} {route : Pattern}
    {names : List Bytes} (hroute : (Pattern.ofString pattern).normalize = .ok (route, names))
    (hroot : n.label = [] → n.isBare = true → n.leaf = none) :
    AddsNear n.Holds (n.insert pattern value).2.Holds (n.insert pattern value).1 route.marks
      ⟨value, names⟩ := by
  unfold insert
  rw [hroute]
  dsimp only
  split
  next hbare =>
    rw [Bool.and_eq_true, List.isEmpty_iff] at hbare
    have hempty : n.bump = bare n.kind (n.priority + 1) [] := by
      have hleaf := hroot hbare.1 hbare.2
      cases n with
      | node kind priority label leaf statics suffixes wild =>
          simp_all [isBare, bump, bare, Node.label, Node.leaf, Node.statics, Node.suffixes,
            Node.wild, Node.kind, Node.priority]
    have hplanted := plant_planted ⟨value, names⟩ route.marks n.bump
    rw [hempty] at hplanted ⊢
    apply hplanted.adds_of_bare.congr ?_ (fun _ _ => Iff.rfl)
    intro marks l
    rw [← holds_bump, hempty, holds_iff]
    simp [not_holdsBelow_bare]
  next => exact insertAt_adds route ⟨value, names⟩ route.marks n

/-- What a tree holds after a pattern was added, unless the tree was a bare root with a leaf. -/
theorem insert_adds {n : Node α} {pattern : String} {value : α} {route : Pattern}
    {names : List Bytes} (hroute : (Pattern.ofString pattern).normalize = .ok (route, names))
    (hnamed : Named route.marks) (hroot : n.label = [] → n.isBare = true → n.leaf = none) :
    Adds n.Holds (n.insert pattern value).2.Holds (n.insert pattern value).1 route.marks
      ⟨value, names⟩ := by
  obtain ⟨spot, hadds, hspot⟩ := insert_addsNear hroute hroot
  rwa [hspot hnamed] at hadds

end Node
end WebApp
