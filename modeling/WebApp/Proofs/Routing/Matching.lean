import Mathlib.Tactic
import WebApp.Proofs.Routing.Growth

/-!
# Paths that fit patterns

A regular pattern describes paths: text stands for itself, a parameter for a part of a segment that
is not empty, a catch-all for all that is left.  What a grown tree selects for a path is a pattern
that the path fits.  It selects one for every path that fits one, unless one pattern hides another:
behind the same parameter the end of the segment of one is an end of that of the other, and the
longer one is not left again.
-/

namespace WebApp

/-- The paths that a pattern describes. -/
inductive Fits : List Mark → Bytes → Prop where
  | nil : Fits [] []
  | text {m : Mark} {rest : List Mark} {path : Bytes} :
      m.IsText → Fits rest path → Fits (m :: rest) (m.byte :: path)
  | param {letter : UInt8} {rest : List Mark} {taken path : Bytes} :
      letter ∈ Pattern.letters → taken ≠ [] → 47 ∉ taken → Fits rest path →
      Fits (⟨123, false⟩ :: ⟨letter, false⟩ :: ⟨125, false⟩ :: rest) (taken ++ path)
  | catchAll {name : List Mark} {path : Bytes} :
      path ≠ [] → Fits (⟨123, false⟩ :: ⟨42, false⟩ :: name) path

/-- A pattern that hides paths of another. -/
inductive Hides : List Mark → List Mark → Prop where
  | text {m : Mark} {p q : List Mark} : m.IsText → Hides p q → Hides (m :: p) (m :: q)
  | param {letter : UInt8} {p q : List Mark} :
      letter ∈ Pattern.letters → Hides p q →
      Hides (⟨123, false⟩ :: ⟨letter, false⟩ :: ⟨125, false⟩ :: p)
        (⟨123, false⟩ :: ⟨letter, false⟩ :: ⟨125, false⟩ :: q)
  | ends {letter : UInt8} {label other p q : List Mark} :
      letter ∈ Pattern.letters → SegmentEnd true label → SegmentEnd true other →
      other <:+ label → other ≠ label →
      Hides (⟨123, false⟩ :: ⟨letter, false⟩ :: ⟨125, false⟩ :: (label ++ p))
        (⟨123, false⟩ :: ⟨letter, false⟩ :: ⟨125, false⟩ :: (other ++ q))

/-- No pattern hides paths of its own. -/
theorem Hides.ne {p q : List Mark} (hhides : Hides p q) : p ≠ q := by
  induction hhides with
  | text _ _ ih | param _ _ ih => simpa using ih
  | @ends letter label other p q _ hend hend' _ hne =>
      intro hsame
      simp only [List.cons.injEq, true_and] at hsame
      have hlength := congrArg Node.segment hsame
      rw [segment_of_segmentEnd hend nofun, segment_of_segmentEnd hend' nofun] at hlength
      exact hne (List.append_inj_left hsame hlength).symm

@[simp]
theorem Mark.length_bytes (marks : List Mark) : (Mark.bytes marks).length = marks.length :=
  List.length_map _

/-! ## Fitting -/

section Fits

variable {rest : List Mark} {path : Bytes}

theorem fits_text_iff {m : Mark} (htext : m.IsText) :
    Fits (m :: rest) path ↔ ∃ behind, path = m.byte :: behind ∧ Fits rest behind := by
  constructor
  · intro hfits
    cases hfits with
    | text _ hrest => exact ⟨_, rfl, hrest⟩
    | param | catchAll => exact absurd htext not_isText_open
  · rintro ⟨behind, rfl, hrest⟩
    exact .text htext hrest

theorem fits_texts_iff {front : List Mark} (htext : ∀ m ∈ front, m.IsText) :
    Fits (front ++ rest) path ↔ ∃ behind, path = Mark.bytes front ++ behind ∧ Fits rest behind := by
  induction front generalizing path with
  | nil => simp [Mark.bytes]
  | cons m front ih =>
      rw [List.forall_mem_cons] at htext
      rw [List.cons_append, fits_text_iff htext.1]
      constructor
      · rintro ⟨behind, rfl, hfits⟩
        obtain ⟨behind, rfl, hrest⟩ := (ih htext.2).mp hfits
        exact ⟨behind, rfl, hrest⟩
      · rintro ⟨behind, rfl, hrest⟩
        exact ⟨_, rfl, (ih htext.2).mpr ⟨behind, rfl, hrest⟩⟩

/-- A text describes itself. -/
theorem fits_bytes {front : List Mark} (htext : ∀ m ∈ front, m.IsText) :
    Fits front (Mark.bytes front) := by
  have hfits := (fits_texts_iff htext).mpr ⟨[], (List.append_nil (Mark.bytes front)).symm, .nil⟩
  rwa [List.append_nil] at hfits

theorem fits_param_iff {letter : UInt8} (hletter : letter ∈ Pattern.letters) :
    Fits (⟨123, false⟩ :: ⟨letter, false⟩ :: ⟨125, false⟩ :: rest) path ↔
      ∃ taken behind, path = taken ++ behind ∧ taken ≠ [] ∧ 47 ∉ taken ∧ Fits rest behind := by
  constructor
  · intro hfits
    cases hfits with
    | text htext => exact absurd htext not_isText_open
    | param _ htaken hslash hrest => exact ⟨_, _, rfl, htaken, hslash, hrest⟩
    | catchAll => exact absurd rfl (ne_of_mem_letters hletter).1
  · rintro ⟨taken, behind, rfl, htaken, hslash, hrest⟩
    exact .param hletter htaken hslash hrest

theorem fits_nil_iff : Fits [] path ↔ path = [] := by
  constructor
  · intro hfits
    cases hfits
    rfl
  · rintro rfl
    exact .nil

/-- Only the empty pattern has a path that is empty. -/
theorem eq_nil_of_fits_nil (hfits : Fits rest []) : rest = [] := by
  generalize hnil : ([] : Bytes) = path at hfits
  cases hfits with
  | nil => rfl
  | text => exact absurd hnil (by simp)
  | param _ htaken => exact absurd (List.append_eq_nil_iff.mp hnil.symm).1 htaken
  | catchAll hpath => exact absurd hnil.symm hpath

end Fits

/-! ## Segments -/

theorem SegmentEnd.bytes_of_closed {label : List Mark} (hend : SegmentEnd true label) :
    ∃ front, Mark.bytes label = front ++ [47] ∧ 47 ∉ front := by
  generalize hclosed : true = closed at hend
  induction hend with
  | slash => exact ⟨[], rfl, List.not_mem_nil⟩
  | last => simp at hclosed
  | @cons closed m rest _ hslash _ ih =>
      obtain ⟨front, hbytes, hfront⟩ := ih hclosed
      refine ⟨m.byte :: front, ?_, ?_⟩
      · rw [Mark.bytes, List.map_cons, ← Mark.bytes, hbytes, List.cons_append]
      · rw [List.mem_cons, not_or]
        exact ⟨Ne.symm hslash, hfront⟩

theorem SegmentEnd.bytes_of_open {label : List Mark} (hend : SegmentEnd false label) :
    47 ∉ Mark.bytes label := by
  generalize hopen : false = closed at hend
  induction hend with
  | slash => simp at hopen
  | last _ hslash => simpa [Mark.bytes] using Ne.symm hslash
  | cons _ hslash _ ih =>
      rw [Mark.bytes, List.map_cons, List.mem_cons, not_or]
      exact ⟨Ne.symm hslash, ih hopen⟩

namespace Node

theorem takeWhile_of_not_mem {front : Bytes} (hfront : 47 ∉ front) (behind : Bytes) :
    (front ++ behind).takeWhile (· != 47) = front ++ behind.takeWhile (· != 47) := by
  apply List.takeWhile_append_of_pos
  intro byte hbyte
  rw [bne_iff_ne]
  rintro rfl
  exact hfront hbyte

theorem pathSegment_of_slash {front : Bytes} (hfront : 47 ∉ front) (behind : Bytes) :
    pathSegment (front ++ 47 :: behind) = (front.length + 1, true) := by
  rw [pathSegment, takeWhile_of_not_mem hfront, List.takeWhile_cons_of_neg (by simp)]
  simp

theorem pathSegment_of_not_mem {path : Bytes} (hpath : 47 ∉ path) :
    pathSegment path = (path.length, false) := by
  have htake := takeWhile_of_not_mem hpath []
  simp only [List.append_nil, List.takeWhile_nil] at htake
  rw [pathSegment, htake]
  simp

/-- The first segment of a path, with its slash if it has one. -/
theorem pathSegment_cases (path : Bytes) :
    (∃ front behind, path = front ++ 47 :: behind ∧ 47 ∉ front ∧
      pathSegment path = (front.length + 1, true)) ∨
    (47 ∉ path ∧ pathSegment path = (path.length, false)) := by
  by_cases hslash : 47 ∈ path
  · obtain ⟨front, behind, rfl, hfront⟩ := List.eq_append_cons_of_mem hslash
    exact .inl ⟨front, behind, rfl, hfront, pathSegment_of_slash hfront behind⟩
  · exact .inr ⟨hslash, pathSegment_of_not_mem hslash⟩

/-- What comes before an end of the first segment has no slash. -/
theorem not_mem_take_pathSegment (path : Bytes) {length : Nat} (hlength : 0 < length) :
    47 ∉ path.take ((pathSegment path).1 - length) := by
  intro hmem
  rcases pathSegment_cases path with ⟨front, behind, rfl, hfront, hsegment⟩ | ⟨hpath, hsegment⟩
  · rw [hsegment] at hmem
    have hshort : front.length + 1 - length ≤ front.length := by omega
    rw [List.take_append_of_le_length hshort] at hmem
    exact hfront (List.mem_of_mem_take hmem)
  · exact hpath (List.mem_of_mem_take hmem)

variable {α : Type}

/-! ## What is found fits -/

/-- Something that a path fits is held. -/
def Suits (held : List Mark → Leaf α → Prop) (path : Bytes) (value : α) : Prop :=
  ∃ marks l, held marks l ∧ Fits marks path ∧ l.value = value

mutual

theorem search_suits {letters : List UInt8} (n : Node α) (hgrown : Grown letters n)
    (hkind : n.kind = .static) (path : Bytes) (taken : List Bytes) {found : Found α}
    (hfound : n.search path taken = some found) : Suits n.Holds path found.1 := by
  match n with
  | .node kind priority label leaf statics suffixes wild =>
      obtain ⟨htext, -, hstatics, -, hwild⟩ := (grown_static_iff hkind).mp hgrown
      rw [search] at hfound
      dsimp only at hfound
      split at hfound
      next =>
        split at hfound
        next hpath =>
          obtain ⟨l, hleaf, rfl⟩ := Option.map_eq_some_iff.mp hfound
          exact ⟨label, l, .here hleaf, hpath ▸ fits_bytes htext, rfl⟩
        next => simp at hfound
      next =>
        split at hfound
        next htake =>
          have hsplit : path = Mark.bytes label ++ path.drop label.length := by
            rw [← htake, List.take_append_drop]
          have hfits : ∀ below, Fits below (path.drop label.length) → Fits (label ++ below) path :=
            fun below hbelow => (fits_texts_iff htext).mpr ⟨_, hsplit, hbelow⟩
          split at hfound
          next other hother =>
            obtain rfl := Option.some.inj hfound
            obtain ⟨entry, hentry, below, l, hholds, hbelow, hvalue⟩ :=
              searchStatics_suits statics hstatics _ taken hother
            exact ⟨label ++ below, l, .static hentry hholds, hfits below hbelow, hvalue⟩
          next =>
            have hne : path.drop label.length ≠ [] := by
              rw [Ne, List.drop_eq_nil_iff]
              assumption
            obtain ⟨child, hchild, below, l, hholds, hbelow, hvalue⟩ :=
              searchWild_suits wild hwild _ hne taken hfound
            exact ⟨label ++ below, l, .wild hchild hholds, hfits below hbelow, hvalue⟩
        next => simp at hfound
termination_by structural n

theorem searchStatics_suits {letters : List UInt8} (statics : List (UInt8 × Node α))
    (hstatics : ∀ entry ∈ statics, StaticChild letters entry) (path : Bytes) (taken : List Bytes)
    {found : Found α} (hfound : searchStatics statics path taken = some found) :
    ∃ entry ∈ statics, Suits entry.2.Holds path found.1 := by
  match statics with
  | [] => simp [searchStatics] at hfound
  | (byte, n) :: others =>
      rw [List.forall_mem_cons] at hstatics
      rw [searchStatics] at hfound
      split at hfound
      next =>
        exact ⟨_, List.mem_cons_self ..,
          search_suits n hstatics.1.grown hstatics.1.kind path taken hfound⟩
      next =>
        obtain ⟨entry, hentry, hsuits⟩ := searchStatics_suits others hstatics.2 path taken hfound
        exact ⟨entry, List.mem_cons_of_mem _ hentry, hsuits⟩
termination_by structural statics

theorem searchWild_suits {letters : List UInt8} (wild : Option (Node α))
    (hwild : ∀ child, wild = some child → WildChild letters child) (path : Bytes)
    (hne : path ≠ []) (taken : List Bytes) {found : Found α}
    (hfound : searchWild wild path taken = some found) :
    ∃ child, wild = some child ∧ Suits child.Holds path found.1 := by
  match wild with
  | none => simp [searchWild] at hfound
  | some (.node kind priority label leaf statics suffixes below) =>
      have hchild := hwild _ rfl
      refine ⟨_, rfl, ?_⟩
      rcases hchild.cases with ⟨hkind, name, -, hlabel⟩ | ⟨hkind, -⟩
      · change kind = _ at hkind
        change label = _ at hlabel
        subst hkind
        rw [searchWild] at hfound
        obtain ⟨l, hleaf, rfl⟩ := Option.map_eq_some_iff.mp hfound
        refine ⟨label, l, .here hleaf, ?_, rfl⟩
        rw [hlabel]
        exact .catchAll hne
      · obtain ⟨letter, others, -, hletter, hlabel, -, -, hsuffixes, -⟩ :=
          (grown_param_iff hkind).mp hchild.grown
        change kind = _ at hkind
        change label = _ at hlabel
        subst hkind
        simp only [searchWild] at hfound
        split at hfound
        next => simp at hfound
        next =>
          split at hfound
          next answer hanswer =>
            obtain ⟨child, hmem, hshort, below, l, hholds, hbelow, hvalue⟩ :=
              searchSuffixes_suits suffixes hsuffixes path _ taken (hfound ▸ hanswer)
            refine ⟨label ++ below, l, .suffix hmem hholds, ?_, hvalue⟩
            obtain ⟨-, -, closed, hend, -⟩ := (hsuffixes child hmem).isEnd
            have hpos := List.length_pos_iff.mpr hend.ne_nil
            rw [hlabel]
            refine (fits_param_iff hletter).mpr ⟨_, _, (List.take_append_drop _ path).symm, ?_,
              not_mem_take_pathSegment path hpos, hbelow⟩
            rw [Ne, List.take_eq_nil_iff, not_or]
            exact ⟨by omega, hne⟩
          next =>
            split at hfound
            next => simp at hfound
            next hends =>
              obtain ⟨l, hleaf, rfl⟩ := Option.map_eq_some_iff.mp hfound
              refine ⟨label, l, .here hleaf, ?_, rfl⟩
              have hslash : 47 ∉ path := by
                rcases pathSegment_cases path with ⟨_, _, _, _, hsegment⟩ | ⟨hslash, -⟩
                · rw [hsegment] at hends
                  exact absurd rfl hends
                · exact hslash
              rw [hlabel]
              exact (fits_param_iff hletter).mpr
                ⟨path, [], (List.append_nil path).symm, hne, hslash, .nil⟩
termination_by structural wild

theorem searchSuffixes_suits {letters : List UInt8} (suffixes : List (Node α))
    (hsuffixes : ∀ child ∈ suffixes, EndChild letters child) (path : Bytes) (width : Nat)
    (taken : List Bytes) {found : Found α}
    (hfound : searchSuffixes suffixes path width taken = some (some found)) :
    ∃ child ∈ suffixes, child.label.length < width ∧
      Suits child.Holds (path.drop (width - child.label.length)) found.1 := by
  match suffixes with
  | [] => simp [searchSuffixes] at hfound
  | n :: others =>
      rw [List.forall_mem_cons] at hsuffixes
      rw [searchSuffixes] at hfound
      split at hfound
      next hmatches =>
        exact ⟨n, List.mem_cons_self .., hmatches.1,
          search_suits n hsuffixes.1.grown hsuffixes.1.isEnd.1 _ _ (Option.some.inj hfound)⟩
      next =>
        obtain ⟨child, hmem, hsuits⟩ :=
          searchSuffixes_suits others hsuffixes.2 path width taken hfound
        exact ⟨child, List.mem_cons_of_mem _ hmem, hsuits⟩
termination_by structural suffixes

end

/-! ## What fits is found -/

/-- None of the patterns hides another. -/
def Unhidden (held : List Mark → Leaf α → Prop) : Prop :=
  ∀ p l q l', held p l → held q l' → ¬ Hides p q

/-- A path fits something that is held, and none of it hides another. -/
structure Clear (held : List Mark → Leaf α → Prop) (path : Bytes) : Prop where
  fits : ∃ marks l, held marks l ∧ Fits marks path
  unhidden : Unhidden held

/-- Whether the first segment of a path ends like the label. -/
def Ends (n : Node α) (path : Bytes) (width : Nat) : Prop :=
  n.label.length < width ∧
    (path.take width).drop (width - n.label.length) = Mark.bytes n.label

theorem searchSuffixes_eq_none (suffixes : List (Node α)) (path : Bytes) (width : Nat)
    (hnone : ∀ child ∈ suffixes, ¬ child.Ends path width) (taken : List Bytes) :
    searchSuffixes suffixes path width taken = none := by
  induction suffixes with
  | nil => rfl
  | cons n others ih =>
      rw [List.forall_mem_cons] at hnone
      rw [searchSuffixes]
      exact (if_neg hnone.1).trans (ih hnone.2)

section Unhidden

variable {letters : List UInt8} {n : Node α} {path : Bytes}

theorem hides_texts {front p q : List Mark} (htext : ∀ m ∈ front, m.IsText) (hhides : Hides p q) :
    Hides (front ++ p) (front ++ q) := by
  induction front with
  | nil => exact hhides
  | cons m front ih =>
      rw [List.forall_mem_cons] at htext
      exact .text htext.1 (ih htext.2)

theorem Unhidden.below (hunhidden : Unhidden n.Holds) (hgrown : Grown letters n)
    (hkind : n.kind ≠ .catchAll) : Unhidden n.HoldsBelow := by
  intro p l q l' hp hq hhides
  apply hunhidden _ _ _ _ (holds_iff.mpr ⟨p, rfl, hp⟩) (holds_iff.mpr ⟨q, rfl, hq⟩)
  cases hgrown with
  | static htext => exact hides_texts htext hhides
  | param hletter => exact .param hletter hhides
  | catchAll => exact absurd rfl hkind

theorem Unhidden.mono {held others : List Mark → Leaf α → Prop} (hunhidden : Unhidden held)
    (hothers : ∀ marks l, others marks l → held marks l) : Unhidden others :=
  fun p l q l' hp hq => hunhidden p l q l' (hothers p l hp) (hothers q l' hq)

end Unhidden

section Ends

variable {letters : List UInt8} {n : Node α} {path : Bytes}

theorem bytes_suffix {label other : List Mark} (hlabel : ∀ m ∈ label, m.IsText)
    (hother : ∀ m ∈ other, m.IsText) (hsuffix : Mark.bytes other <:+ Mark.bytes label) :
    other <:+ label := by
  rw [List.suffix_iff_eq_drop] at hsuffix ⊢
  simp only [Mark.bytes, List.length_map] at hsuffix
  rw [← List.map_drop] at hsuffix
  exact eq_of_bytes hother (fun m hm => hlabel m (List.mem_of_mem_drop hm)) hsuffix

/-- In a segment without a slash at its end, each end that it has is all of a pattern. -/
theorem EndChild.clear_of_open {child : Node α} (hchild : EndChild letters child)
    (hunhidden : Unhidden child.Holds) (hslash : 47 ∉ path) (hends : child.Ends path path.length) :
    Clear child.Holds (path.drop (path.length - child.label.length)) := by
  obtain ⟨hlength, hbytes⟩ := hends
  rw [List.take_length] at hbytes
  obtain ⟨-, -, closed, hend, hopen⟩ := hchild.isEnd
  cases closed with
  | true =>
      obtain ⟨front, hfront, -⟩ := hend.bytes_of_closed
      rw [hfront] at hbytes
      have hmem : 47 ∈ path.drop (path.length - child.label.length) := by
        rw [hbytes]
        simp
      exact absurd (List.mem_of_mem_drop hmem) hslash
  | false =>
      obtain ⟨l, hleaf⟩ := Option.isSome_iff_exists.mp (hopen rfl).2
      refine ⟨⟨child.label, l, ?_, ?_⟩, hunhidden⟩
      · rw [holds_iff]
        exact ⟨[], (List.append_nil _).symm, .inl ⟨rfl, hleaf⟩⟩
      · rw [hbytes]
        exact fits_bytes hend.isText

/-- The first segment of a path with a parameter and a closed end. -/
theorem pathSegment_of_closed {label : List Mark} (hend : SegmentEnd true label) {taken : Bytes}
    (htaken : 47 ∉ taken) (behind : Bytes) :
    pathSegment (taken ++ (Mark.bytes label ++ behind)) = (taken.length + label.length, true) := by
  obtain ⟨front, hbytes, hfront⟩ := hend.bytes_of_closed
  have hlength : label.length = front.length + 1 := by
    rw [← Mark.length_bytes, hbytes, List.length_append, List.length_singleton]
  have hslash : 47 ∉ taken ++ front := by
    rw [List.mem_append, not_or]
    exact ⟨htaken, hfront⟩
  have hsegment := pathSegment_of_slash hslash behind
  rw [List.append_assoc] at hsegment
  rw [hbytes, List.append_assoc, List.singleton_append, hsegment, hlength, List.length_append,
    Nat.add_assoc]

/-- The ends that a segment has with a slash are the same, where no pattern hides another. -/
theorem eq_of_ends {child other : Node α} (hgrown : Grown letters n) (hkind : n.kind = .param)
    (hunhidden : Unhidden n.Holds) (hchild : child ∈ n.suffixes) (hother : other ∈ n.suffixes)
    (hend : SegmentEnd true child.label) {taken behind : Bytes}
    (hends : other.Ends (taken ++ (Mark.bytes child.label ++ behind))
      (taken.length + child.label.length)) : other = child := by
  obtain ⟨letter, others, rfl, hletter, hlabel, -, -, hsuffixes, hlabels⟩ :=
    (grown_param_iff hkind).mp hgrown
  obtain ⟨hlength, hbytes⟩ := hends
  have htake : (taken ++ (Mark.bytes child.label ++ behind)).take
      (taken.length + child.label.length) = taken ++ Mark.bytes child.label := by
    rw [← List.append_assoc, List.take_left' (by simp)]
  rw [htake] at hbytes
  have hsuffix : Mark.bytes other.label <:+ taken ++ Mark.bytes child.label := by
    rw [← hbytes]
    exact List.drop_suffix ..
  -- The last byte tells that the other end is closed as well.
  have hclosed : SegmentEnd true other.label := by
    obtain ⟨-, -, closed, hend', -⟩ := (hsuffixes other hother).isEnd
    cases closed with
    | true => exact hend'
    | false =>
        obtain ⟨front, hfront, -⟩ := hend.bytes_of_closed
        have hne : Mark.bytes other.label ≠ [] := by simp [Mark.bytes, hend'.ne_nil]
        have hlast := hsuffix.getLast hne
        have hslash := List.getLast_mem hne
        rw [hlast] at hslash
        simp only [hfront] at hslash
        simp at hslash
        exact absurd hslash hend'.bytes_of_open
  have hheld : ∀ child ∈ n.suffixes, ∃ below l, n.Holds
      (⟨123, false⟩ :: ⟨letter, false⟩ :: ⟨125, false⟩ :: (child.label ++ below)) l := by
    intro child hmem
    obtain ⟨-, ⟨marks, l, hholds⟩, -⟩ := (hsuffixes child hmem).isEnd
    obtain ⟨below, rfl, -⟩ := holds_iff.mp hholds
    have hbelow : n.HoldsBelow (child.label ++ below) l := .inr (.inr (.inl ⟨child, hmem, hholds⟩))
    refine ⟨below, l, holds_iff.mpr ⟨_, ?_, hbelow⟩⟩
    rw [hlabel]
    rfl
  obtain ⟨p, l, hp⟩ := hheld child hchild
  obtain ⟨q, l', hq⟩ := hheld other hother
  have hsame : other.label = child.label := by
    by_contra hne
    rcases List.suffix_or_suffix_of_suffix hsuffix (List.suffix_append ..) with hshort | hlong
    · have hmarks := bytes_suffix hend.isText hclosed.isText hshort
      exact hunhidden _ _ _ _ hp hq (.ends hletter hend hclosed hmarks hne)
    · have hmarks := bytes_suffix hclosed.isText hend.isText hlong
      exact hunhidden _ _ _ _ hq hp (.ends hletter hclosed hend hmarks (Ne.symm hne))
  exact List.inj_on_of_nodup_map hlabels hother hchild hsame

/-- What the first segment of a path comes to at a parameter: its ends go on, or there is a leaf. -/
theorem Clear.param (hclear : Clear n.Holds path) (hgrown : Grown letters n)
    (hkind : n.kind = .param) :
    ¬ ((pathSegment path).2 = true ∧ (pathSegment path).1 = 1) ∧
    (∀ child ∈ n.suffixes, child.Ends path (pathSegment path).1 →
      Clear child.Holds (path.drop ((pathSegment path).1 - child.label.length))) ∧
    ((∃ child ∈ n.suffixes, child.Ends path (pathSegment path).1) ∨
      ((pathSegment path).2 = false ∧ n.leaf.isSome = true)) := by
  obtain ⟨letter, others, rfl, hletter, hlabel, hstatics, hwild, hsuffixes, -⟩ :=
    (grown_param_iff hkind).mp hgrown
  have hunhidden : ∀ child ∈ n.suffixes, Unhidden child.Holds := by
    intro child hmem
    apply (hclear.unhidden.below hgrown (by simp [hkind])).mono
    intro marks l hholds
    exact .inr (.inr (.inl ⟨child, hmem, hholds⟩))
  have hopen : 47 ∉ path → ∀ child ∈ n.suffixes, child.Ends path path.length →
      Clear child.Holds (path.drop (path.length - child.label.length)) :=
    fun hslash child hmem hends =>
      (hsuffixes child hmem).clear_of_open (hunhidden child hmem) hslash hends
  obtain ⟨marks, l, hholds, hfits⟩ := hclear.fits
  obtain ⟨below, rfl, hbelow⟩ := holds_iff.mp hholds
  rw [hlabel] at hfits
  obtain ⟨taken, behind, rfl, htaken, hslash, hrest⟩ := (fits_param_iff hletter).mp hfits
  have hpos := List.length_pos_iff.mpr htaken
  rcases hbelow with ⟨rfl, hleaf⟩ | ⟨entry, hmem, -⟩ | ⟨child, hmem, hchild⟩ | ⟨child, hchild, -⟩
  · obtain rfl := fits_nil_iff.mp hrest
    rw [List.append_nil] at hopen ⊢
    rw [pathSegment_of_not_mem hslash]
    exact ⟨by simp, hopen hslash, .inr ⟨rfl, Option.isSome_iff_exists.mpr ⟨l, hleaf⟩⟩⟩
  · rw [hstatics] at hmem
    exact absurd hmem List.not_mem_nil
  · obtain ⟨closed, tail, hend, rfl, htail⟩ := (hsuffixes child hmem).isEnd.holds_cases hchild
    obtain ⟨behind, rfl, hrest'⟩ := (fits_texts_iff hend.isText).mp hrest
    have hlabelPos := List.length_pos_iff.mpr hend.ne_nil
    have hends : child.Ends (taken ++ (Mark.bytes child.label ++ behind))
        (taken.length + child.label.length) := by
      refine ⟨by omega, ?_⟩
      rw [← List.append_assoc, List.take_left' (by simp), Nat.add_sub_cancel,
        List.drop_left]
    -- With a slash the end of the segment is the one that the path fits; without one, any end
    -- that matches is all of a pattern.
    cases closed with
    | true =>
        have hsegment := pathSegment_of_closed hend hslash behind
        rw [hsegment]
        refine ⟨by simp; omega, ?_, .inl ⟨child, hmem, hends⟩⟩
        intro other hother hotherEnds
        obtain rfl :=
          eq_of_ends hgrown hkind hclear.unhidden hmem hother hend hotherEnds
        refine ⟨⟨_, l, hchild, ?_⟩, hunhidden other hother⟩
        rw [Nat.add_sub_cancel, List.drop_left]
        exact hrest
    | false =>
        rw [htail rfl, fits_nil_iff] at hrest'
        subst hrest'
        have hpath : 47 ∉ taken ++ (Mark.bytes child.label ++ []) := by
          rw [List.append_nil, List.mem_append, not_or]
          exact ⟨hslash, hend.bytes_of_open⟩
        have hwidth : (taken ++ (Mark.bytes child.label ++ [])).length =
            taken.length + child.label.length := by
          simp
        rw [pathSegment_of_not_mem hpath]
        rw [← hwidth] at hends
        exact ⟨by simp, hopen hpath, .inl ⟨child, hmem, hends⟩⟩
  · rw [hwild] at hchild
    exact absurd hchild (by simp)

end Ends

/-- A path that ends with the label of a node. -/
theorem search_label {n : Node α} {l : Leaf α} (hleaf : n.leaf = some l) (taken : List Bytes) :
    (n.search (Mark.bytes n.label) taken).isSome = true := by
  cases n with
  | node kind priority label leaf statics suffixes wild =>
      change leaf = some l at hleaf
      change (search _ (Mark.bytes label) taken).isSome = true
      rw [search, if_pos (by simp), if_pos rfl, hleaf]
      rfl

/-- A path that goes on behind the label of a node. -/
theorem search_behind {n : Node α} {behind : Bytes} (hne : behind ≠ []) {taken : List Bytes}
    (hfound : (searchStatics n.statics behind taken).isSome = true ∨
      (searchWild n.wild behind taken).isSome = true) :
    (n.search (Mark.bytes n.label ++ behind) taken).isSome = true := by
  cases n with
  | node kind priority label leaf statics suffixes wild =>
      have hlength := Mark.length_bytes label
      have hpos := List.length_pos_iff.mpr hne
      change (search _ (Mark.bytes label ++ behind) taken).isSome = true
      rw [search]
      dsimp only
      rw [if_neg (by rw [List.length_append]; omega), ← hlength, List.take_left, List.drop_left,
        if_pos rfl]
      split
      next => rfl
      next hnone => exact hfound.resolve_left (by simp [Node.statics, hnone])

mutual

-- Along the recursion of the search.  Only the ends of a segment are not tried again after a
-- failure, and there the pattern that the path fits is the first whose end matches.
theorem search_isSome {letters : List UInt8} (n : Node α) (hgrown : Grown letters n)
    (hkind : n.kind = .static) {path : Bytes} (hclear : Clear n.Holds path) (taken : List Bytes) :
    (n.search path taken).isSome = true := by
  match n with
  | .node kind priority label leaf statics suffixes wild =>
      obtain ⟨htext, hsuffixes, hstatics, hkeys, hwild⟩ := (grown_static_iff hkind).mp hgrown
      have hunhidden := hclear.unhidden.below hgrown (by simp [hkind])
      obtain ⟨marks, l, hholds, hfits⟩ := hclear.fits
      obtain ⟨below, rfl, hbelow⟩ := holds_iff.mp hholds
      obtain ⟨behind, rfl, hrest⟩ := (fits_texts_iff htext).mp hfits
      rcases hbelow with
        ⟨rfl, hleaf⟩ | ⟨entry, hmem, hentry⟩ | ⟨child, hmem, -⟩ | ⟨child, hsome, hholds⟩
      · obtain rfl := fits_nil_iff.mp hrest
        rw [List.append_nil]
        exact search_label hleaf taken
      · obtain ⟨m, tail, rfl, hm, hbyte⟩ := (hstatics entry hmem).head_of_holds hentry
        obtain ⟨path, rfl, -⟩ := (fits_text_iff hm).mp hrest
        apply search_behind (by simp)
        refine .inl (searchStatics_isSome statics hstatics ?_ ⟨entry, hmem, by simp [hbyte]⟩ taken)
        intro other hother hhead
        have hsame : other = entry := by
          apply List.inj_on_of_nodup_map hkeys hother hmem
          simpa [hbyte] using hhead.symm
        subst hsame
        exact ⟨⟨_, l, hentry, hrest⟩, hunhidden.mono
          fun marks l hholds => .inr (.inl ⟨other, hmem, hholds⟩)⟩
      · exact absurd (hsuffixes ▸ hmem) List.not_mem_nil
      · have hne : behind ≠ [] := by
          rintro rfl
          obtain ⟨tail, rfl⟩ := (hwild child hsome).opening_of_holds hholds
          exact absurd (eq_nil_of_fits_nil hrest) (by simp)
        apply search_behind hne
        refine .inr (searchWild_isSome wild hwild ⟨child, hsome, ⟨_, l, hholds, hrest⟩, ?_⟩ taken)
        exact hunhidden.mono fun marks l hholds => .inr (.inr (.inr ⟨child, hsome, hholds⟩))
termination_by structural n

theorem searchStatics_isSome {letters : List UInt8} (statics : List (UInt8 × Node α))
    (hstatics : ∀ entry ∈ statics, StaticChild letters entry) {path : Bytes}
    (hclear : ∀ entry ∈ statics, path.head? = some entry.1 → Clear entry.2.Holds path)
    (hsome : ∃ entry ∈ statics, path.head? = some entry.1) (taken : List Bytes) :
    (searchStatics statics path taken).isSome = true := by
  match statics with
  | [] =>
      obtain ⟨entry, hmem, -⟩ := hsome
      exact absurd hmem List.not_mem_nil
  | (byte, n) :: others =>
      rw [List.forall_mem_cons] at hstatics hclear
      rw [searchStatics]
      split
      next hhead =>
        exact search_isSome n hstatics.1.grown hstatics.1.kind (hclear.1 hhead) taken
      next hhead =>
        obtain ⟨entry, hmem, hentry⟩ := hsome
        rcases List.mem_cons.mp hmem with rfl | hmem
        · exact absurd hentry hhead
        · exact searchStatics_isSome others hstatics.2 hclear.2 ⟨entry, hmem, hentry⟩ taken
termination_by structural statics

theorem searchWild_isSome {letters : List UInt8} (wild : Option (Node α))
    (hwild : ∀ child, wild = some child → WildChild letters child) {path : Bytes}
    (hclear : ∃ child, wild = some child ∧ Clear child.Holds path) (taken : List Bytes) :
    (searchWild wild path taken).isSome = true := by
  match wild with
  | none =>
      obtain ⟨child, hnone, -⟩ := hclear
      exact absurd hnone (by simp)
  | some (.node kind priority label leaf statics suffixes below) =>
      obtain ⟨child, hsame, hclear⟩ := hclear
      obtain rfl := Option.some.inj hsame
      have hchild := hwild _ rfl
      rcases hchild.cases with ⟨hkind, -⟩ | ⟨hkind, -⟩
      · change kind = _ at hkind
        subst hkind
        cases hchild.grown with
        | catchAll _ => rfl
      · obtain ⟨hwidth, hends, hsome⟩ := hclear.param hchild.grown hkind
        obtain ⟨_, others, -, -, -, -, -, hsuffixes, -⟩ := (grown_param_iff hkind).mp hchild.grown
        change kind = _ at hkind
        subst hkind
        simp only [searchWild]
        rw [if_neg (by simpa using hwidth)]
        by_cases hany : ∃ child ∈ suffixes, child.Ends path (pathSegment path).1
        · obtain ⟨found, hfound⟩ := searchSuffixes_isSome suffixes hsuffixes hends hany taken
          rw [hfound]
          rfl
        · obtain ⟨hopen, hleaf⟩ := hsome.resolve_left hany
          have hnone := searchSuffixes_eq_none suffixes path (pathSegment path).1
            (fun child hmem hchild => hany ⟨child, hmem, hchild⟩) taken
          obtain ⟨l, hleaf⟩ := Option.isSome_iff_exists.mp hleaf
          change leaf = some l at hleaf
          rw [hnone, hopen, hleaf]
          rfl
termination_by structural wild

theorem searchSuffixes_isSome {letters : List UInt8} (suffixes : List (Node α))
    (hsuffixes : ∀ child ∈ suffixes, EndChild letters child) {path : Bytes} {width : Nat}
    (hclear : ∀ child ∈ suffixes, child.Ends path width →
      Clear child.Holds (path.drop (width - child.label.length)))
    (hsome : ∃ child ∈ suffixes, child.Ends path width) (taken : List Bytes) :
    ∃ found, searchSuffixes suffixes path width taken = some (some found) := by
  match suffixes with
  | [] =>
      obtain ⟨child, hmem, -⟩ := hsome
      exact absurd hmem List.not_mem_nil
  | n :: others =>
      rw [List.forall_mem_cons] at hsuffixes hclear
      rw [searchSuffixes]
      split
      next hends =>
        obtain ⟨found, hfound⟩ := Option.isSome_iff_exists.mp
          (search_isSome n hsuffixes.1.grown hsuffixes.1.isEnd.1 (hclear.1 hends)
            (path.take (width - n.label.length) :: taken))
        exact ⟨found, congrArg some hfound⟩
      next hends =>
        obtain ⟨child, hmem, hchild⟩ := hsome
        rcases List.mem_cons.mp hmem with rfl | hmem
        · exact absurd hchild hends
        · exact searchSuffixes_isSome others hsuffixes.2 hclear.2 ⟨child, hmem, hchild⟩ taken
termination_by structural suffixes

end

end Node
end WebApp
