import Mathlib.Tactic
import WebApp.Proofs.Routing.Grammar

/-!
# Trees of regular patterns

A tree that has grown from regular patterns alone has them at their places: texts that differ in
their first bytes, one parameter or catch-all at most, and behind a parameter the ends of its
segment, no two alike.
-/

namespace WebApp
namespace Node

variable {α : Type}

/-! ## Putting a regular pattern into a node -/

/-- The node with the text before a parameter as its label. -/
def withText (n : Node α) (front : List Mark) : Node α :=
  if front = [] then n else n.withLabel front

section Plant

variable (leaf : Leaf α) (n : Node α) {front : List Mark}

theorem plant_text (hfront : ∀ m ∈ front, m.IsText) :
    plant leaf front n = (none, (n.withLabel front).withLeaf leaf) := by
  have hfind := findParam_eq_none hfront 0
  unfold plant
  split
  next heq => simp [hfind] at heq
  next => rfl
  next heq => simp [hfind] at heq

theorem plant_catchAll (hfront : ∀ m ∈ front, m.IsText) {name : List Mark} (hname : IsName name) :
    plant leaf (front ++ ⟨123, false⟩ :: ⟨42, false⟩ :: (name ++ [⟨125, false⟩])) n =
      (none, (n.withText front).withWild
        ((bare .catchAll 1 (⟨123, false⟩ :: ⟨42, false⟩ :: (name ++ [⟨125, false⟩]))).withLeaf
          leaf)) := by
  have hfind := findParam_texts hfront 0
    (⟨123, false⟩ :: ⟨42, false⟩ :: (name ++ [⟨125, false⟩]))
  rw [findParam_catchAll hname, Nat.zero_add] at hfind
  unfold plant
  split
  next heq => simp [hfind] at heq
  next heq => simp [hfind] at heq
  next start stop heq =>
    simp only [hfind, Except.ok.injEq, Option.some.injEq, Prod.mk.injEq] at heq
    obtain ⟨rfl, rfl⟩ := heq
    rw [if_pos (by simp), if_pos (by simp; omega)]
    simp [withText]

theorem segment_param {letter : UInt8} (hletter : letter ∈ Pattern.letters) (tail : List Mark) :
    segment (⟨123, false⟩ :: ⟨letter, false⟩ :: ⟨125, false⟩ :: tail) = segment tail + 3 := by
  simp only [segment, List.length_cons]
  rw [List.takeWhile_cons_of_pos (by decide), List.takeWhile_cons_of_pos
    (by simp [ne_of_mem_letters hletter]), List.takeWhile_cons_of_pos (by decide)]
  simp only [List.length_cons]
  omega

/-- A parameter at the end of a pattern. -/
theorem plant_param_last (hfront : ∀ m ∈ front, m.IsText) {letter : UInt8}
    (hletter : letter ∈ Pattern.letters) :
    plant leaf (front ++ [⟨123, false⟩, ⟨letter, false⟩, ⟨125, false⟩]) n =
      (none, (n.withText front).withWild
        ((bare .param 1 [⟨123, false⟩, ⟨letter, false⟩, ⟨125, false⟩]).withLeaf leaf)) := by
  have hfind := findParam_texts hfront 0 [⟨123, false⟩, ⟨letter, false⟩, ⟨125, false⟩]
  rw [findParam_param hletter, Nat.zero_add] at hfind
  have hsegment : segment [⟨123, false⟩, ⟨letter, false⟩, ⟨125, false⟩] = 3 :=
    segment_param hletter []
  unfold plant
  split
  next heq => simp [hfind] at heq
  next heq => simp [hfind] at heq
  next start stop heq =>
    simp only [hfind, Except.ok.injEq, Option.some.injEq, Prod.mk.injEq] at heq
    obtain ⟨rfl, rfl⟩ := heq
    rw [if_neg (by simp [ne_of_mem_letters hletter])]
    simp [hsegment, findParam, plantBelow, withText]

/-- A parameter with the end of its segment. -/
theorem plant_param (hfront : ∀ m ∈ front, m.IsText) {letter : UInt8}
    (hletter : letter ∈ Pattern.letters) {closed : Bool} {label behind : List Mark}
    (hend : SegmentEnd closed label) (hbehind : closed = false → behind = []) :
    plant leaf
        (front ++ ⟨123, false⟩ :: ⟨letter, false⟩ :: ⟨125, false⟩ :: (label ++ behind)) n =
      ((plantBelow leaf behind (bare .static 1 label)).1,
        (n.withText front).withWild
          ((bare .param 1 [⟨123, false⟩, ⟨letter, false⟩, ⟨125, false⟩]).withSuffixes
            [(plantBelow leaf behind (bare .static 1 label)).2])) := by
  have hfind := findParam_texts hfront 0
    (⟨123, false⟩ :: ⟨letter, false⟩ :: ⟨125, false⟩ :: (label ++ behind))
  rw [findParam_param hletter, Nat.zero_add] at hfind
  have hsegment := segment_param hletter (label ++ behind)
  rw [segment_of_segmentEnd hend hbehind] at hsegment
  have hlabel := findParam_eq_none hend.isText 0
  have hne : label.isEmpty = false := by
    cases hend <;> rfl
  unfold plant
  split
  next heq => simp [hfind] at heq
  next heq => simp [hfind] at heq
  next start stop heq =>
    simp only [hfind, Except.ok.injEq, Option.some.injEq, Prod.mk.injEq] at heq
    obtain ⟨rfl, rfl⟩ := heq
    rw [if_neg (by simp [ne_of_mem_letters hletter])]
    simp [hsegment, hlabel, hne, withText]

end Plant

/-! ## Grown trees -/

/-- Something is held. -/
def Fruitful (n : Node α) : Prop :=
  ∃ marks l, n.Holds marks l

/-- A node that ends a segment behind a parameter and is there for something that is held.  Without
a slash at its end nothing follows. -/
def IsEnd (n : Node α) : Prop :=
  n.kind = .static ∧ Fruitful n ∧ ∃ closed, SegmentEnd closed n.label ∧
    (closed = false → n.isBare = true ∧ n.leaf.isSome = true)

/-- Trees that have grown from regular patterns, with the letters that are left for the parameters
below. -/
inductive Grown : List UInt8 → Node α → Prop where
  | static {letters : List UInt8} {priority : Nat} {label : List Mark} {leaf : Option (Leaf α)}
      {statics : List (UInt8 × Node α)} {wild : Option (Node α)} :
      (∀ m ∈ label, m.IsText) → (∀ entry ∈ statics, Grown letters entry.2) →
      (∀ entry ∈ statics, entry.2.kind = .static ∧
        entry.2.label.head?.map Mark.byte = some entry.1) →
      (statics.map Prod.fst).Nodup → (∀ child, wild = some child → Grown letters child) →
      (∀ child, wild = some child → child.kind ≠ .static ∧ Fruitful child) →
      Grown letters (.node .static priority label leaf statics [] wild)
  | param {letters : List UInt8} {letter : UInt8} {priority : Nat} {leaf : Option (Leaf α)}
      {suffixes : List (Node α)} :
      letter ∈ Pattern.letters → (∀ child ∈ suffixes, Grown letters child) →
      (∀ child ∈ suffixes, IsEnd child) → (suffixes.map label).Nodup →
      Grown (letter :: letters)
        (.node .param priority [⟨123, false⟩, ⟨letter, false⟩, ⟨125, false⟩] leaf [] suffixes none)
  | catchAll {letters : List UInt8} {priority : Nat} {name : List Mark} {leaf : Leaf α} :
      IsName name →
      Grown letters
        (.node .catchAll priority (⟨123, false⟩ :: ⟨42, false⟩ :: (name ++ [⟨125, false⟩]))
          (some leaf) [] [] none)

/-- A child that goes on with a byte. -/
structure StaticChild (letters : List UInt8) (entry : UInt8 × Node α) : Prop where
  grown : Grown letters entry.2
  kind : entry.2.kind = .static
  head : entry.2.label.head?.map Mark.byte = some entry.1

/-- A child that begins with a parameter or a catch-all. -/
structure WildChild (letters : List UInt8) (child : Node α) : Prop where
  grown : Grown letters child
  kind : child.kind ≠ .static
  fruitful : Fruitful child

/-- A child that ends the segment of a parameter. -/
structure EndChild (letters : List UInt8) (child : Node α) : Prop where
  grown : Grown letters child
  isEnd : IsEnd child

theorem grown_static_iff {letters : List UInt8} {n : Node α} (hkind : n.kind = .static) :
    Grown letters n ↔ (∀ m ∈ n.label, m.IsText) ∧ n.suffixes = [] ∧
      (∀ entry ∈ n.statics, StaticChild letters entry) ∧ (n.statics.map Prod.fst).Nodup ∧
      ∀ child, n.wild = some child → WildChild letters child := by
  constructor
  · intro hgrown
    cases hgrown with
    | static hlabel hstatics hheads hkeys hwild hfruitful =>
        exact ⟨hlabel, rfl,
          fun entry hmem => ⟨hstatics entry hmem, (hheads entry hmem).1, (hheads entry hmem).2⟩,
          hkeys, fun child hchild => ⟨hwild child hchild, (hfruitful child hchild).1,
            (hfruitful child hchild).2⟩⟩
    | param | catchAll => exact absurd hkind (by simp [Node.kind])
  · rintro ⟨hlabel, hsuffixes, hstatics, hkeys, hwild⟩
    cases n with
    | node kind priority label leaf statics suffixes wild =>
        change suffixes = [] at hsuffixes
        change kind = .static at hkind
        subst hsuffixes hkind
        exact .static hlabel (fun entry hmem => (hstatics entry hmem).grown)
          (fun entry hmem => ⟨(hstatics entry hmem).kind, (hstatics entry hmem).head⟩) hkeys
          (fun child hchild => (hwild child hchild).grown)
          (fun child hchild => ⟨(hwild child hchild).kind, (hwild child hchild).fruitful⟩)

theorem grown_param_iff {letters : List UInt8} {n : Node α} (hkind : n.kind = .param) :
    Grown letters n ↔ ∃ letter others, letters = letter :: others ∧ letter ∈ Pattern.letters ∧
      n.label = [⟨123, false⟩, ⟨letter, false⟩, ⟨125, false⟩] ∧ n.statics = [] ∧ n.wild = none ∧
      (∀ child ∈ n.suffixes, EndChild others child) ∧ (n.suffixes.map label).Nodup := by
  constructor
  · intro hgrown
    cases hgrown with
    | param hletter hsuffixes hends hlabels =>
        exact ⟨_, _, rfl, hletter, rfl, rfl, rfl,
          fun child hmem => ⟨hsuffixes child hmem, hends child hmem⟩, hlabels⟩
    | static | catchAll => exact absurd hkind (by simp [Node.kind])
  · rintro ⟨letter, others, rfl, hletter, hlabel, hstatics, hwild, hsuffixes, hlabels⟩
    cases n with
    | node kind priority label leaf statics suffixes wild =>
        change statics = [] at hstatics
        change kind = .param at hkind
        change label = _ at hlabel
        change wild = none at hwild
        subst hstatics hkind hlabel hwild
        exact .param hletter (fun child hmem => (hsuffixes child hmem).grown)
          (fun child hmem => (hsuffixes child hmem).isEnd) hlabels

theorem grown_bare {letters : List UInt8} {label : List Mark} (hlabel : ∀ m ∈ label, m.IsText)
    (priority : Nat) : Grown letters (bare .static priority label : Node α) :=
  (grown_static_iff rfl).mpr ⟨hlabel, rfl, nofun, List.nodup_nil, nofun⟩

/-- A node whose label is text and which has one child more for another byte. -/
theorem StaticChild.of_front {letters : List UInt8} {m : Mark} {front : List Mark}
    (hfront : ∀ m ∈ front, m.IsText) (hhead : front.head? = some m) {n : Node α}
    (hlabel : n.label = front) (hkind : n.kind = .static) (hstatics : n.statics = [])
    (hsuffixes : n.suffixes = [])
    (hwild : ∀ child, n.wild = some child → WildChild letters child) :
    StaticChild letters (m.byte, n) := by
  refine ⟨?_, hkind, ?_⟩
  · rw [grown_static_iff hkind, hlabel, hstatics, hsuffixes]
    exact ⟨hfront, rfl, nofun, List.nodup_nil, hwild⟩
  · rw [hlabel, hhead, Option.map_some]

/-- What is put behind the end of a segment. -/
theorem EndChild.planted {letters : List UInt8} {closed : Bool} {label behind : List Mark}
    (hend : SegmentEnd closed label) (hbehind : closed = false → behind = []) {leaf : Leaf α}
    (hnone : (plantBelow leaf behind (bare .static 1 label)).1 = none)
    (hgrown : Grown letters (plantBelow leaf behind (bare .static 1 label)).2)
    (hkind : (plantBelow leaf behind (bare .static 1 label)).2.kind = .static) :
    EndChild letters (plantBelow leaf behind (bare .static 1 label)).2 ∧
      (plantBelow leaf behind (bare .static 1 label)).2.label = label := by
  obtain ⟨hlabel, hbelow⟩ := plantBelow_adds leaf behind (bare .static 1 label) (fun _ => rfl)
    (fun _ => rfl)
  obtain ⟨spot, hadds, -⟩ := hbelow.of_bare hlabel
  have hholds := (hadds spot leaf).mpr (.inr ⟨hnone, rfl, rfl⟩)
  rw [label_bare] at hlabel
  refine ⟨⟨hgrown, hkind, ⟨spot, leaf, hholds⟩, closed, ?_, ?_⟩, hlabel⟩
  · rw [hlabel]
    exact hend
  · intro hopen
    rw [hbehind hopen, plantBelow]
    exact ⟨rfl, rfl⟩

mutual

theorem plant_grown {letters : List UInt8} {taken : Bool} {rest front : List Mark}
    (hregular : Regular letters taken rest) (hopening : Opening rest)
    (hfront : ∀ m ∈ front, m.IsText) (leaf : Leaf α) (n : Node α) :
    ∃ child, plant leaf (front ++ rest) n = (none, (n.withText front).withWild child) ∧
      WildChild letters child := by
  match hregular with
  | .nil _ _ =>
      obtain ⟨_, _, hnil, -⟩ := hopening
      exact absurd hnil (by simp)
  | .text htext _ =>
      obtain ⟨_, _, hcons, hopens⟩ := hopening
      rw [← (List.cons.inj hcons).1, htext.not_opens] at hopens
      exact absurd hopens (by simp)
  | .catchAll hname =>
      refine ⟨_, plant_catchAll leaf n hfront hname, .catchAll hname, by simp, ?_⟩
      exact ⟨_, leaf, .here rfl⟩
  | @Regular.param letters letter tail hletter htail =>
      rcases htail.exists_segmentEnd with rfl | ⟨closed, label, behind, hend, hsplit, hbehind, hrest⟩
      · refine ⟨_, plant_param_last leaf n hfront hletter, ?_, by simp, ⟨_, leaf, .here rfl⟩⟩
        exact .param hletter nofun nofun List.nodup_nil
      · have hless : behind.length ≤ tail.length := by
          rw [hsplit, List.length_append]
          omega
        obtain ⟨hnone, hgrown, hkind⟩ := plantBelow_grown hrest (grown_bare hend.isText 1)
          (by simp) (fun _ => rfl) (fun _ _ _ _ => nofun) leaf
        have hchild := (EndChild.planted hend hbehind hnone hgrown hkind).1
        obtain ⟨marks, l, hholds⟩ := hchild.isEnd.2.1
        have hplant := plant_param leaf n hfront hletter hend hbehind
        rw [hnone, ← hsplit] at hplant
        refine ⟨_, hplant, ?_, by simp, ⟨_, l, .suffix (List.mem_singleton_self _) hholds⟩⟩
        exact .param hletter (by simpa using hchild.grown) (by simpa using hchild.isEnd) (by simp)
termination_by 2 * rest.length
decreasing_by
  simp only [List.length_cons]
  omega

theorem plantBelow_grown {letters : List UInt8} {taken : Bool} {rest : List Mark}
    (hregular : Regular letters taken rest) {n : Node α} (hgrown : Grown letters n)
    (hkind : n.kind = .static) (hwild : Opening rest → n.wild = none)
    (hkeys : ∀ m behind, rest = m :: behind → m.IsText → ∀ entry ∈ n.statics, entry.1 ≠ m.byte)
    (leaf : Leaf α) :
    (plantBelow leaf rest n).1 = none ∧ Grown letters (plantBelow leaf rest n).2 ∧
      (plantBelow leaf rest n).2.kind = .static := by
  obtain ⟨hlabel, hsuffixes, hstatics, hdistinct, hchild⟩ := (grown_static_iff hkind).mp hgrown
  match rest with
  | [] =>
      rw [plantBelow]
      exact ⟨rfl, (grown_static_iff (n := n.withLeaf leaf) hkind).mpr
        ⟨hlabel, hsuffixes, hstatics, hdistinct, hchild⟩, hkind⟩
  | m :: behind =>
      rw [plantBelow]
      split
      next hopens =>
        have hopening : Opening (m :: behind) := ⟨m, behind, rfl, hopens⟩
        obtain ⟨child, hplant, hwildChild⟩ :=
          plant_grown hregular hopening (List.forall_mem_nil _) leaf n
        rw [List.nil_append] at hplant
        rw [hplant]
        refine ⟨rfl, (grown_static_iff (n := n.withWild child) hkind).mpr ?_, hkind⟩
        refine ⟨hlabel, hsuffixes, hstatics, hdistinct, ?_⟩
        intro other hother
        exact Option.some.inj hother ▸ hwildChild
      next hopens =>
        obtain ⟨front, rest, taken', hsplit, hfront, hrest, hend⟩ := hregular.exists_front
        have hless : rest.length ≤ behind.length + 1 := by
          rw [← List.length_cons (a := m), hsplit, List.length_append]
          omega
        have hhead : front.head? = some m := by
          cases front with
          | nil =>
              rw [List.nil_append] at hsplit
              rw [← hsplit] at hend
              rcases hend with hnil | ⟨_, _, hcons, hopening⟩
              · exact absurd hnil (by simp)
              · rw [← (List.cons.inj hcons).1] at hopening
                exact absurd hopening hopens
          | cons other front => rw [(List.cons.inj hsplit).1, List.head?_cons]
        have hplanted : ∃ child, plant leaf (m :: behind) (bare .static 1 []) = (none, child) ∧
            StaticChild letters (m.byte, child) := by
          rw [hsplit]
          rcases hend with rfl | hopening
          · rw [List.append_nil]
            exact ⟨_, plant_text leaf _ hfront, .of_front hfront hhead rfl rfl rfl rfl nofun⟩
          · obtain ⟨child, hplant, hwildChild⟩ :=
              plant_grown hrest hopening hfront leaf (bare .static 1 [])
            have hne : front ≠ [] := by
              rintro rfl
              simp at hhead
            rw [withText, if_neg hne] at hplant
            refine ⟨_, hplant, .of_front hfront hhead rfl rfl rfl rfl ?_⟩
            intro other hother
            exact Option.some.inj hother ▸ hwildChild
        obtain ⟨child, hplant, hstaticChild⟩ := hplanted
        rw [hplant]
        refine ⟨rfl, (grown_static_iff
          (n := n.withStatics (n.statics ++ [(m.byte, child)])) hkind).mpr ?_, hkind⟩
        refine ⟨hlabel, hsuffixes, ?_, ?_, hchild⟩
        · intro entry hmem
          rcases List.mem_append.mp hmem with hold | hnew
          · exact hstatics entry hold
          · rw [List.mem_singleton.mp hnew]
            exact hstaticChild
        · rw [statics_withStatics, List.map_append, List.nodup_append]
          refine ⟨hdistinct, List.nodup_singleton _, ?_⟩
          intro key hkey other hother
          obtain ⟨entry, hmem, rfl⟩ := List.mem_map.mp hkey
          rw [List.map_singleton, List.mem_singleton] at hother
          rw [hother]
          exact hkeys m behind rfl (hfront m (List.mem_of_head? hhead)) entry hmem
termination_by 2 * rest.length + 1

end

/-! ## What a grown tree holds -/

section Held

variable {letters : List UInt8} {marks : List Mark} {l : Leaf α}

theorem StaticChild.head_of_holds {entry : UInt8 × Node α} (hchild : StaticChild letters entry)
    (hholds : entry.2.Holds marks l) :
    ∃ m behind, marks = m :: behind ∧ m.IsText ∧ m.byte = entry.1 := by
  obtain ⟨below, rfl, -⟩ := holds_iff.mp hholds
  have htext := ((grown_static_iff hchild.kind).mp hchild.grown).1
  obtain ⟨m, hhead, hbyte⟩ := Option.map_eq_some_iff.mp hchild.head
  obtain ⟨others, hlabel⟩ := List.head?_eq_some_iff.mp hhead
  refine ⟨m, others ++ below, ?_, htext m (List.mem_of_head? hhead), hbyte⟩
  rw [hlabel, List.cons_append]

theorem WildChild.cases {child : Node α} (hchild : WildChild letters child) :
    (child.kind = .catchAll ∧ ∃ name, IsName name ∧
      child.label = ⟨123, false⟩ :: ⟨42, false⟩ :: (name ++ [⟨125, false⟩])) ∨
    (child.kind = .param ∧ ∃ letter others, letters = letter :: others ∧
      letter ∈ Pattern.letters ∧
      child.label = [⟨123, false⟩, ⟨letter, false⟩, ⟨125, false⟩]) := by
  have hgrown := hchild.grown
  have hkind := hchild.kind
  cases hgrown with
  | static => exact absurd rfl hkind
  | catchAll hname => exact .inl ⟨rfl, _, hname, rfl⟩
  | param hletter => exact .inr ⟨rfl, _, _, rfl, hletter, rfl⟩

theorem WildChild.opening_of_holds {child : Node α} (hchild : WildChild letters child)
    (hholds : child.Holds marks l) : ∃ behind, marks = ⟨123, false⟩ :: behind := by
  obtain ⟨below, rfl, -⟩ := holds_iff.mp hholds
  rcases hchild.cases with ⟨-, name, -, hlabel⟩ | ⟨-, letter, others, -, -, hlabel⟩ <;>
    exact ⟨_, by rw [hlabel]; rfl⟩

/-- What an end of a segment holds begins with that end, and goes on behind a slash only. -/
theorem IsEnd.holds_cases {child : Node α} (hend : IsEnd child) (hholds : child.Holds marks l) :
    ∃ closed below, SegmentEnd closed child.label ∧ marks = child.label ++ below ∧
      (closed = false → below = []) := by
  obtain ⟨-, -, closed, hlabel, hopen⟩ := hend
  obtain ⟨below, rfl, hbelow⟩ := holds_iff.mp hholds
  refine ⟨closed, below, hlabel, rfl, ?_⟩
  intro hclosed
  have hbare := (hopen hclosed).1
  cases child with
  | node kind priority label leaf statics suffixes wild =>
      simp only [isBare, Node.statics, Node.suffixes, Node.wild, Bool.and_eq_true,
        List.isEmpty_iff, Option.isNone_iff_eq_none] at hbare
      obtain ⟨⟨rfl, rfl⟩, rfl⟩ := hbare
      rcases hbelow with ⟨hnil, -⟩ | ⟨_, hmem, -⟩ | ⟨_, hmem, -⟩ | ⟨_, hwild, -⟩
      · exact hnil
      · exact absurd hmem List.not_mem_nil
      · exact absurd hmem List.not_mem_nil
      · exact absurd hwild (by simp [Node.wild])

end Held

end Node
end WebApp
