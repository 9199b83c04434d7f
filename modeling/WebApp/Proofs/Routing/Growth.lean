import Mathlib.Tactic
import WebApp.Proofs.Routing.Grown

/-!
# Adding regular patterns

A tree that has grown from regular patterns accepts another one just when it conflicts with none
that the tree holds, and grows by it.
-/

namespace WebApp
namespace Node

variable {α : Type}

/-! ## Acceptance -/

/-- A pattern is accepted where it conflicts with nothing that is held. -/
def Accepts (held : List Mark → Leaf α → Prop) (e : Option InsertError) (rest : List Mark) : Prop :=
  e = none ↔ ∀ marks l, held marks l → ¬ Conflicts marks rest

theorem Accepts.congr {held held' : List Mark → Leaf α → Prop} {e : Option InsertError}
    {rest : List Mark} (haccepts : Accepts held e rest)
    (hheld : ∀ marks l, held' marks l ↔ held marks l) : Accepts held' e rest := by
  unfold Accepts
  simp only [hheld]
  exact haccepts

/-- What does not conflict has no say. -/
theorem Accepts.beside {held elsewhere : List Mark → Leaf α → Prop} {e : Option InsertError}
    {rest : List Mark} (haccepts : Accepts held e rest)
    (helsewhere : ∀ marks l, elsewhere marks l → ¬ Conflicts marks rest) :
    Accepts (fun marks l => held marks l ∨ elsewhere marks l) e rest := by
  refine haccepts.trans ⟨?_, ?_⟩
  · intro hnone marks l hholds
    exact hholds.elim (hnone marks l) (helsewhere marks l)
  · intro hnone marks l hholds
    exact hnone marks l (.inl hholds)

theorem accepts_of_none {held : List Mark → Leaf α → Prop} {rest : List Mark}
    (hnone : ∀ marks l, held marks l → ¬ Conflicts marks rest) : Accepts held none rest :=
  ⟨fun _ => hnone, fun _ => rfl⟩

theorem accepts_of_conflict {held : List Mark → Leaf α → Prop} {rest marks : List Mark}
    {l : Leaf α} (e : InsertError) (hholds : held marks l) (hconflicts : Conflicts marks rest) :
    Accepts held (some e) rest :=
  ⟨nofun, fun hnone => absurd hconflicts (hnone marks l hholds)⟩

/-- A pattern is accepted at a node when what is left of it is accepted behind the label. -/
theorem Accepts.atNode {n : Node α} {e : Option InsertError} {rest : List Mark}
    (haccepts : Accepts n.HoldsBelow e rest)
    (hlabel : ∀ p q, Conflicts (n.label ++ p) (n.label ++ q) ↔ Conflicts p q) :
    Accepts n.Holds e (n.label ++ rest) := by
  refine haccepts.trans ⟨?_, ?_⟩
  · intro hnone marks l hholds
    obtain ⟨below, rfl, hbelow⟩ := holds_iff.mp hholds
    rw [hlabel]
    exact hnone below l hbelow
  · intro hnone below l hbelow
    have hnot := hnone _ l (holds_iff.mpr ⟨below, rfl, hbelow⟩)
    rwa [hlabel] at hnot

/-! ## Adding a regular pattern to a grown tree -/

/-- What an attempt to add a regular pattern leaves of a grown node. -/
structure Inserted (letters : List UInt8) (n : Node α) (rest : List Mark) (attempt : Attempt α) :
    Prop where
  grown : Grown letters attempt.2
  kind : attempt.2.kind = n.kind
  label : attempt.2.label = n.label.take (common rest n.label)
  accepts : Accepts n.Holds attempt.1 rest

/-- What it leaves of children that go on with different bytes. -/
def StaticsInserted (letters : List UInt8) (statics : List (UInt8 × Node α)) (rest : List Mark)
    (byte : UInt8) : Option (Option InsertError × List (UInt8 × Node α)) → Prop
  | none => ∀ entry ∈ statics, entry.1 ≠ byte
  | some (e, statics') => (∀ entry ∈ statics', StaticChild letters entry) ∧
      (statics'.map Prod.fst).Perm (statics.map Prod.fst) ∧
      Accepts (fun marks l => ∃ entry ∈ statics, entry.2.Holds marks l) e rest

/-- What it leaves of the ends of a segment. -/
def EndsInserted (letters : List UInt8) (suffixes : List (Node α)) (label rest : List Mark) :
    Option (Option InsertError × List (Node α)) → Prop
  | none => ∀ child ∈ suffixes, child.label ≠ label
  | some (e, suffixes') => (∀ child ∈ suffixes', EndChild letters child) ∧
      suffixes'.map Node.label = suffixes.map Node.label ∧
      Accepts (fun marks l => ∃ child ∈ suffixes, child.Holds marks l) e rest

/-- What it leaves of a parameter or a catch-all. -/
def WildInserted (letters : List UInt8) (wild : Option (Node α)) (rest : List Mark) :
    Option (Attempt α) → Prop
  | none => wild = none
  | some (e, child) => WildChild letters child ∧
      Accepts (fun marks l => ∃ child, wild = some child ∧ child.Holds marks l) e rest

theorem StaticsInserted.perm {letters : List UInt8} {statics others : List (UInt8 × Node α)}
    {rest : List Mark} {byte : UInt8}
    {answer : Option (Option InsertError × List (UInt8 × Node α))}
    (hinserted : StaticsInserted letters statics rest byte answer) (hperm : others.Perm statics) :
    StaticsInserted letters others rest byte answer := by
  cases answer with
  | none => exact fun entry hmem => hinserted entry (hperm.mem_iff.mp hmem)
  | some attempt =>
      obtain ⟨hstatics, hkeys, haccepts⟩ := hinserted
      refine ⟨hstatics, hkeys.trans (hperm.map Prod.fst).symm, haccepts.congr ?_⟩
      intro marks l
      simp only [hperm.mem_iff]

theorem grown_bump {letters : List UInt8} {n : Node α} (hgrown : Grown letters n) :
    Grown letters n.bump := by
  cases hgrown with
  | static hlabel hstatics hheads hkeys hwild hfruitful =>
      exact .static hlabel hstatics hheads hkeys hwild hfruitful
  | param hletter hsuffixes hends hlabels => exact .param hletter hsuffixes hends hlabels
  | catchAll hname => exact .catchAll hname

theorem StaticChild.not_conflicts {letters : List UInt8} {entry : UInt8 × Node α}
    (hchild : StaticChild letters entry) {m : Mark} (hne : entry.1 ≠ m.byte)
    {marks behind : List Mark} {l : Leaf α} (hholds : entry.2.Holds marks l) :
    ¬ Conflicts marks (m :: behind) := by
  obtain ⟨other, below, rfl, htext, hbyte⟩ := hchild.head_of_holds hholds
  intro hconflicts
  obtain ⟨_, hsame, -⟩ := (conflicts_text_iff htext).mp hconflicts
  rw [(List.cons.inj hsame).1] at hne
  exact hne hbyte.symm

/-- A pattern is refused that goes on with another parameter or catch-all than the tree. -/
theorem WildChild.refused {letters : List UInt8} {taken : Bool} {rest : List Mark} {n : Node α}
    (hchild : WildChild letters n) (hregular : Regular letters taken rest)
    (hopening : Opening rest)
    (hrefused : (n.label.length ≤ rest.length ∧
      Mark.bytes (rest.take n.label.length) ≠ Mark.bytes n.label) ∨ n.kind = .catchAll)
    (e : InsertError) : Accepts n.Holds (some e) rest := by
  obtain ⟨marks, l, hholds⟩ := hchild.fruitful
  apply accepts_of_conflict e hholds
  obtain ⟨below, rfl, -⟩ := holds_iff.mp hholds
  rcases hchild.cases with ⟨-, name, -, hlabel⟩ | ⟨hkind, letter, others, hletters, -, hlabel⟩ <;>
    rcases hregular.of_opening hopening with
      ⟨letter', others', tail, hletters', -, rfl⟩ | ⟨name', hname', rfl⟩
  · rw [hlabel]
    exact .left _ _
  · rw [hlabel]
    exact .left _ _
  · -- The same letter stands for both parameters.
    have hletter : letter' = letter := by
      rw [hletters] at hletters'
      exact (List.cons.inj hletters').1.symm
    subst hletter
    rw [hkind, hlabel] at hrefused
    simp at hrefused
  · rw [hlabel]
    exact .right _ _

/-- A pattern that is not refused goes on with the parameter of the tree. -/
theorem WildChild.prefix_of_not_refused {letters : List UInt8} {taken : Bool} {rest : List Mark}
    {n : Node α} (hchild : WildChild letters n) (hregular : Regular letters taken rest)
    (hopening : Opening rest)
    (hnot : ¬ ((n.label.length ≤ rest.length ∧
      Mark.bytes (rest.take n.label.length) ≠ Mark.bytes n.label) ∨ n.kind = .catchAll)) :
    n.label <+: rest := by
  rw [not_or] at hnot
  rcases hchild.cases with ⟨hkind, -⟩ | ⟨-, letter, others, hletters, hletter, hlabel⟩
  · exact absurd hkind hnot.2
  · rw [hlabel] at hnot ⊢
    rcases hregular.of_opening hopening with
      ⟨letter', others', tail, hletters', -, rfl⟩ | ⟨name, hname, rfl⟩
    · rw [hletters] at hletters'
      rw [(List.cons.inj hletters').1]
      exact ⟨tail, rfl⟩
    · have hlength := List.length_pos_iff.mpr hname.1
      refine absurd ⟨?_, ?_⟩ hnot.1
      · simp only [List.length_cons, List.length_append, List.length_nil]
        omega
      · simp [Mark.bytes, Ne.symm (ne_of_mem_letters hletter).1]

theorem WildChild.inserted {letters : List UInt8} {n : Node α} {rest : List Mark}
    {route : Pattern} {leaf : Leaf α} (hchild : WildChild letters n)
    (hinserted : Inserted letters n rest (n.insertAt route leaf rest)) :
    WildChild letters (n.insertAt route leaf rest).2 := by
  obtain ⟨marks, l, hholds⟩ := hchild.fruitful
  obtain ⟨spot, hadds, -⟩ := insertAt_adds route leaf rest n
  refine ⟨hinserted.grown, ?_, marks, l, (hadds marks l).mpr (.inl hholds)⟩
  rw [hinserted.kind]
  exact hchild.kind

/-- A pattern that ends in a node with a leaf is refused. -/
theorem insertAt_label (route : Pattern) (leaf : Leaf α) {n : Node α}
    (hleaf : n.leaf.isSome = true) :
    ∃ e, n.insertAt route leaf n.label = (some e, n.bump) := by
  cases n with
  | node kind priority label held statics suffixes wild =>
      change held.isSome = true at hleaf
      have hcommon : common label label = label.length := by
        induction label with
        | nil => rfl
        | cons m rest ih => rw [common, if_pos rfl, ih, List.length_cons]
      refine ⟨conflicting route label (node kind (priority + 1) label held statics suffixes wild), ?_⟩
      simp only [Node.label]
      rw [insertAt, hcommon, if_neg (Nat.lt_irrefl _), List.drop_length]
      dsimp only
      rw [if_pos hleaf]
      rfl

theorem common_append (label behind : List Mark) :
    common (label ++ behind) label = label.length := by
  induction label with
  | nil => cases behind <;> rfl
  | cons m label ih => rw [List.cons_append, common, if_pos rfl, ih, List.length_cons]

theorem head?_take_common {marks other : List Mark} {m : Mark} (hmarks : marks.head? = some m)
    (hother : other.head? = some m) : (other.take (common marks other)).head? = some m := by
  obtain ⟨rest, rfl⟩ := List.head?_eq_some_iff.mp hmarks
  obtain ⟨below, rfl⟩ := List.head?_eq_some_iff.mp hother
  rw [common, if_pos rfl, List.take_succ_cons, List.head?_cons]

theorem StaticChild.inserted {letters : List UInt8} {m : Mark} {n : Node α} {behind : List Mark}
    {attempt : Attempt α} (hchild : StaticChild letters (m.byte, n)) (htext : m.IsText)
    (hinserted : Inserted letters n (m :: behind) attempt) :
    StaticChild letters (m.byte, attempt.2) := by
  have hhead : n.label.head? = some m := by
    obtain ⟨other, hhead, hsame⟩ := Option.map_eq_some_iff.mp hchild.head
    have htexts := ((grown_static_iff hchild.kind).mp hchild.grown).1
    rw [hhead, (htexts other (List.mem_of_head? hhead)).eq_of_byte htext hsame]
  refine ⟨hinserted.grown, hinserted.kind.trans hchild.kind, ?_⟩
  rw [hinserted.label, head?_take_common rfl hhead, Option.map_some]

theorem EndChild.inserted {letters : List UInt8} {n : Node α} {closed : Bool}
    {behind : List Mark} {route : Pattern} {leaf : Leaf α} (hchild : EndChild letters n)
    (hend : SegmentEnd closed n.label) (hbehind : closed = false → behind = [])
    (hinserted : Inserted letters n (n.label ++ behind)
      (n.insertAt route leaf (n.label ++ behind))) :
    EndChild letters (n.insertAt route leaf (n.label ++ behind)).2 := by
  have hlabel := hinserted.label
  rw [common_append, List.take_length] at hlabel
  obtain ⟨hkind, ⟨marks, l, hholds⟩, closed', hend', hleaf⟩ := hchild.isEnd
  obtain ⟨spot, hadds, -⟩ := insertAt_adds route leaf (n.label ++ behind) n
  refine ⟨hinserted.grown, hinserted.kind.trans hkind,
    ⟨marks, l, (hadds marks l).mpr (.inl hholds)⟩, closed, ?_, ?_⟩
  · rw [hlabel]
    exact hend
  · intro hopen
    obtain ⟨hbare, hleaf⟩ := hleaf ((hend'.unique hend).trans hopen)
    obtain ⟨e, hrefused⟩ := insertAt_label route leaf hleaf
    rw [hbehind hopen, List.append_nil, hrefused]
    cases n
    exact ⟨hbare, hleaf⟩

section Below

variable {letters : List UInt8} {n : Node α} {e : Option InsertError}
variable {rest : List Mark}

theorem Inserted.of_below {attempt : Attempt α} (hgrown : Grown letters attempt.2)
    (hkind : attempt.2.kind = n.kind) (hlabel : attempt.2.label = n.label)
    (haccepts : Accepts n.HoldsBelow attempt.1 rest)
    (hconflicts : ∀ p q, Conflicts (n.label ++ p) (n.label ++ q) ↔ Conflicts p q) :
    Inserted letters n (n.label ++ rest) attempt where
  grown := hgrown
  kind := hkind
  label := by rw [hlabel, common_append, List.take_length]
  accepts := haccepts.atNode hconflicts

theorem Accepts.below_statics {m : Mark} (htext : m.IsText) (hsuffixes : n.suffixes = [])
    (hwild : ∀ child, n.wild = some child → WildChild letters child)
    (haccepts : Accepts (fun marks l => ∃ entry ∈ n.statics, entry.2.Holds marks l) e (m :: rest)) :
    Accepts n.HoldsBelow e (m :: rest) := by
  have helsewhere : ∀ marks l, (marks = [] ∧ n.leaf = some l) ∨
      (∃ child, n.wild = some child ∧ child.Holds marks l) → ¬ Conflicts marks (m :: rest) := by
    intro marks l helsewhere hconflicts
    rcases helsewhere with ⟨rfl, -⟩ | ⟨child, hchild, hholds⟩
    · exact absurd (conflicts_nil_iff.mp hconflicts) (by simp)
    · obtain ⟨behind, rfl⟩ := (hwild child hchild).opening_of_holds hholds
      exact not_conflicts_opening htext ⟨_, _, rfl, rfl⟩ hconflicts.symm
  apply (haccepts.beside helsewhere).congr
  intro marks l
  simp only [HoldsBelow, hsuffixes, List.not_mem_nil, false_and, exists_false, false_or]
  exact or_left_comm

theorem Accepts.below_wild (hopening : Opening rest) (hsuffixes : n.suffixes = [])
    (hstatics : ∀ entry ∈ n.statics, StaticChild letters entry)
    (haccepts : Accepts (fun marks l => ∃ child, n.wild = some child ∧ child.Holds marks l) e rest) :
    Accepts n.HoldsBelow e rest := by
  have helsewhere : ∀ marks l, (marks = [] ∧ n.leaf = some l) ∨
      (∃ entry ∈ n.statics, entry.2.Holds marks l) → ¬ Conflicts marks rest := by
    intro marks l helsewhere hconflicts
    rcases helsewhere with ⟨rfl, -⟩ | ⟨entry, hmem, hholds⟩
    · rw [conflicts_nil_iff] at hconflicts
      obtain ⟨_, _, hcons, -⟩ := hopening
      exact absurd (hconflicts.symm.trans hcons) (by simp)
    · obtain ⟨m, behind, rfl, htext, -⟩ := (hstatics entry hmem).head_of_holds hholds
      exact not_conflicts_opening htext hopening hconflicts
  apply (haccepts.beside helsewhere).congr
  intro marks l
  simp only [HoldsBelow, hsuffixes, List.not_mem_nil, false_and, exists_false, false_or]
  rw [← or_assoc, or_comm]

theorem Accepts.below_suffixes {m : Mark} (hstatics : n.statics = []) (hwild : n.wild = none)
    (haccepts : Accepts (fun marks l => ∃ child ∈ n.suffixes, child.Holds marks l) e (m :: rest)) :
    Accepts n.HoldsBelow e (m :: rest) := by
  have helsewhere : ∀ marks l, (marks = [] ∧ n.leaf = some l) → ¬ Conflicts marks (m :: rest) := by
    intro marks l helsewhere hconflicts
    rw [helsewhere.1, conflicts_nil_iff] at hconflicts
    exact absurd hconflicts (by simp)
  apply (haccepts.beside helsewhere).congr
  intro marks l
  simp [HoldsBelow, hstatics, hwild, or_comm]

/-- A pattern that ends in a node is refused just when the node has a leaf. -/
theorem Accepts.below_nil (letters : List UInt8)
    (hstatics : ∀ entry ∈ n.statics, StaticChild letters entry)
    (hsuffixes : ∀ child ∈ n.suffixes, IsEnd child)
    (hwild : ∀ child, n.wild = some child → WildChild letters child)
    (hleaf : e = none ↔ n.leaf = none) : Accepts n.HoldsBelow e [] := by
  have helsewhere : ∀ marks l, (∃ entry ∈ n.statics, entry.2.Holds marks l) ∨
      (∃ child ∈ n.suffixes, child.Holds marks l) ∨
      (∃ child, n.wild = some child ∧ child.Holds marks l) → ¬ Conflicts marks [] := by
    intro marks l helsewhere hconflicts
    have hnil := conflicts_nil_iff.mp hconflicts.symm
    subst hnil
    rcases helsewhere with ⟨entry, hmem, hholds⟩ | ⟨child, hmem, hholds⟩ | ⟨child, hchild, hholds⟩
    · obtain ⟨m, behind, hnil, -⟩ := (hstatics entry hmem).head_of_holds hholds
      exact absurd hnil (by simp)
    · obtain ⟨closed, below, hend, hnil, -⟩ := (hsuffixes child hmem).holds_cases hholds
      exact hend.ne_nil (List.append_eq_nil_iff.mp hnil.symm).1
    · obtain ⟨behind, hnil⟩ := (hwild child hchild).opening_of_holds hholds
      exact absurd hnil (by simp)
  have hhere : Accepts (fun marks l => marks = [] ∧ n.leaf = some l) e [] := by
    refine hleaf.trans ⟨?_, ?_⟩
    · intro hnone marks l hheld
      rw [hnone] at hheld
      exact absurd hheld.2 (by simp)
    · intro hnone
      cases hleaf : n.leaf with
      | none => rfl
      | some l => exact absurd .same (hnone [] l ⟨rfl, hleaf⟩)
  exact hhere.beside helsewhere

end Below

theorem grown_cut {letters : List UInt8} {n : Node α} (hgrown : Grown letters n)
    (hkind : n.kind = .static) {front tail : List Mark} {m : Mark}
    (hlabel : n.label = front ++ m :: tail) :
    Grown letters (n.cut front.length) ∧ (n.cut front.length).kind = .static ∧
      (n.cut front.length).label = front ∧ (n.cut front.length).leaf = none ∧
      (n.cut front.length).wild = none ∧
      ∀ entry ∈ (n.cut front.length).statics, entry.1 = m.byte := by
  obtain ⟨htext, hsuffixes, hstatics, hkeys, hwild⟩ := (grown_static_iff hkind).mp hgrown
  rw [hlabel, List.forall_mem_append] at htext
  unfold cut
  split
  next hdrop =>
    rw [hlabel, List.drop_left] at hdrop
    exact absurd hdrop (by simp)
  next other rest hdrop =>
    rw [hlabel, List.drop_left] at hdrop
    obtain ⟨rfl, rfl⟩ := List.cons.inj hdrop
    have hfront : n.label.take front.length = front := by rw [hlabel, List.take_left]
    have hlower : StaticChild letters (m.byte, node .static (n.priority - 1) (m :: tail) n.leaf
        n.statics n.suffixes n.wild) := by
      refine ⟨(grown_static_iff rfl).mpr ?_, rfl, rfl⟩
      exact ⟨htext.2, hsuffixes, hstatics, hkeys, hwild⟩
    have hnone : ∀ child, (none : Option (Node α)) = some child → WildChild letters child := by
      simp
    dsimp only
    rw [hfront, hkind]
    refine ⟨(grown_static_iff rfl).mpr ⟨htext.1, rfl, ?_, List.nodup_singleton _, hnone⟩, rfl, rfl,
      rfl, rfl, ?_⟩
    · intro entry hmem
      rw [List.mem_singleton.mp hmem]
      exact hlower
    · intro entry hmem
      rw [List.mem_singleton.mp hmem]

/-- A pattern that leaves the label of a node in the middle is accepted there. -/
theorem inserted_cut {letters : List UInt8} {taken : Bool} {rest front tail behind : List Mark}
    {m : Mark} {n : Node α} (hregular : Regular letters taken rest) (hgrown : Grown letters n)
    (hkind : n.kind = .static) (hrest : rest = front ++ behind)
    (hlabel : n.label = front ++ m :: tail) (hcommon : common rest n.label = front.length)
    (hdiffer : ∀ other p q, behind = other :: p → m :: tail ≠ other :: q) (leaf : Leaf α) :
    Inserted letters n rest (plantBelow leaf behind (n.bump.cut front.length)) := by
  have htext := ((grown_static_iff hkind).mp hgrown).1
  rw [hlabel, List.forall_mem_append] at htext
  have hbump : n.bump.label = front ++ m :: tail := by
    cases n
    exact hlabel
  obtain ⟨hcut, hcutKind, hcutLabel, hcutLeaf, hcutWild, hcutStatics⟩ :=
    grown_cut (grown_bump hgrown) (by cases n; exact hkind) hbump
  obtain ⟨taken', hbehind⟩ := (hrest ▸ hregular).drop_front htext.1
  have hkeys : ∀ other p, behind = other :: p → other.IsText →
      ∀ entry ∈ (n.bump.cut front.length).statics, entry.1 ≠ other.byte := by
    intro other p hcons hother entry hmem hsame
    rw [hcutStatics entry hmem] at hsame
    have hm := (htext.2 m (List.mem_cons_self ..)).eq_of_byte hother hsame
    exact hdiffer other p tail hcons (by rw [hm])
  obtain ⟨hnone, hplanted, hplantedKind⟩ := plantBelow_grown hbehind hcut hcutKind
    (fun _ => hcutWild) hkeys leaf
  have hplantedLabel := (plantBelow_adds leaf behind (n.bump.cut front.length) (fun _ => hcutWild)
    (fun _ => hcutLeaf)).1
  refine ⟨hplanted, hplantedKind.trans hkind.symm, ?_, ?_⟩
  · rw [hplantedLabel, hcutLabel, hcommon, hlabel, List.take_left]
  · rw [hnone]
    apply accepts_of_none
    intro marks l hholds
    obtain ⟨below, rfl, -⟩ := holds_iff.mp hholds
    rw [hlabel, hrest, List.append_assoc, conflicts_texts_iff htext.1]
    intro hconflicts
    obtain ⟨p, hcons, -⟩ := (conflicts_text_iff (htext.2 m (List.mem_cons_self ..))).mp hconflicts
    exact hdiffer m p tail hcons rfl

section Static

variable {letters : List UInt8} {taken : Bool} {rest : List Mark} {n : Node α} {leaf : Leaf α}

theorem conflicts_label_iff (hgrown : Grown letters n) (hkind : n.kind ≠ .catchAll)
    (p q : List Mark) : Conflicts (n.label ++ p) (n.label ++ q) ↔ Conflicts p q := by
  cases hgrown with
  | static htext => exact conflicts_texts_iff htext
  | param hletter => exact conflicts_param_iff hletter
  | catchAll => exact absurd rfl hkind

theorem inserted_plantBelow (hregular : Regular letters taken rest) (hgrown : Grown letters n)
    (hkind : n.kind = .static) (hne : rest ≠ []) (hwild : Opening rest → n.wild = none)
    (hkeys : ∀ m behind, rest = m :: behind → m.IsText → ∀ entry ∈ n.statics, entry.1 ≠ m.byte) :
    Inserted letters n (n.label ++ rest) (plantBelow leaf rest n.bump) := by
  obtain ⟨htext, hsuffixes, hstatics, hdistinct, hchildren⟩ := (grown_static_iff hkind).mp hgrown
  have hbump : n.bump.kind = .static ∧ n.bump.label = n.label ∧ n.bump.wild = n.wild ∧
      n.bump.statics = n.statics := by
    cases n
    exact ⟨hkind, rfl, rfl, rfl⟩
  obtain ⟨hbumpKind, hbumpLabel, hbumpWild, hbumpStatics⟩ := hbump
  obtain ⟨hnone, hplanted, hplantedKind⟩ := plantBelow_grown hregular (grown_bump hgrown) hbumpKind
    (fun hopening => hbumpWild.trans (hwild hopening)) (by rwa [hbumpStatics]) leaf
  have hlabel := (plantBelow_adds leaf rest n.bump
    (fun hopening => hbumpWild.trans (hwild hopening)) (fun hnil => absurd hnil hne)).1
  refine .of_below hplanted (hplantedKind.trans hkind.symm) (hlabel.trans hbumpLabel) ?_
    (conflicts_label_iff hgrown (by simp [hkind]))
  rw [hnone]
  cases rest with
  | nil => exact absurd rfl hne
  | cons m behind =>
      by_cases hopens : m.opens = true
      · have hopening : Opening (m :: behind) := ⟨m, behind, rfl, hopens⟩
        apply Accepts.below_wild hopening hsuffixes hstatics
        apply accepts_of_none
        intro marks l hheld
        obtain ⟨child, hchild, -⟩ := hheld
        rw [hwild hopening] at hchild
        exact absurd hchild (by simp)
      · have hm : m.IsText := by
          cases hregular with
          | text hm => exact hm
          | param | catchAll => exact absurd rfl hopens
        apply Accepts.below_statics hm hsuffixes hchildren
        apply accepts_of_none
        intro marks l hheld
        obtain ⟨entry, hmem, hholds⟩ := hheld
        exact (hstatics entry hmem).not_conflicts (hkeys m behind rfl hm entry hmem) hholds

theorem inserted_withWild (hgrown : Grown letters n) (hkind : n.kind = .static)
    (hopening : Opening rest) {e : Option InsertError} {child : Node α}
    (hinserted : WildInserted letters n.wild rest (some (e, child))) :
    Inserted letters n (n.label ++ rest) (e, n.bump.withWild child) := by
  obtain ⟨htext, hsuffixes, hstatics, hdistinct, -⟩ := (grown_static_iff hkind).mp hgrown
  obtain ⟨hchild, haccepts⟩ := hinserted
  refine .of_below ?_ (by cases n; rfl) (by cases n; rfl)
    (haccepts.below_wild hopening hsuffixes hstatics)
    (conflicts_label_iff hgrown (by simp [hkind]))
  cases n
  refine (grown_static_iff (n := (node ..).withWild child) hkind).mpr
    ⟨htext, hsuffixes, hstatics, hdistinct, ?_⟩
  intro other hother
  exact Option.some.inj hother ▸ hchild

theorem inserted_withStatics {m : Mark} {behind : List Mark} (hm : m.IsText)
    (hgrown : Grown letters n) (hkind : n.kind = .static) {e : Option InsertError}
    {statics : List (UInt8 × Node α)}
    (hinserted : StaticsInserted letters n.statics (m :: behind) m.byte (some (e, statics))) :
    Inserted letters n (n.label ++ m :: behind) (e, n.bump.withStatics statics) := by
  obtain ⟨htext, hsuffixes, -, hdistinct, hwild⟩ := (grown_static_iff hkind).mp hgrown
  obtain ⟨hchildren, hkeys, haccepts⟩ := hinserted
  refine .of_below ?_ (by cases n; rfl) (by cases n; rfl)
    (haccepts.below_statics hm hsuffixes hwild)
    (conflicts_label_iff hgrown (by simp [hkind]))
  cases n
  exact (grown_static_iff (n := (node ..).withStatics statics) hkind).mpr
    ⟨htext, hsuffixes, hchildren, hkeys.nodup_iff.mpr hdistinct, hwild⟩

theorem grown_withLeaf (hgrown : Grown letters n) (hkind : n.kind ≠ .catchAll) (leaf : Leaf α) :
    Grown letters (n.withLeaf leaf) := by
  cases hgrown with
  | static hlabel hstatics hheads hkeys hwild hfruitful =>
      exact .static hlabel hstatics hheads hkeys hwild hfruitful
  | param hletter hsuffixes hends hlabels => exact .param hletter hsuffixes hends hlabels
  | catchAll => exact absurd rfl hkind

/-- A pattern that ends in a node. -/
theorem inserted_nil (route : Pattern) (hgrown : Grown letters n) (hkind : n.kind ≠ .catchAll) :
    Inserted letters n n.label
      (if n.leaf.isSome then (some (conflicting route n.label n.bump), n.bump)
        else (none, n.bump.withLeaf leaf)) := by
  have haccepts : ∀ e : Option InsertError, (e = none ↔ n.leaf = none) →
      Accepts n.HoldsBelow e [] := by
    intro e hleaf
    cases hgrown with
    | static htext hstatics hheads hkeys hwild hfruitful =>
        exact Accepts.below_nil letters
          (fun entry hmem => ⟨hstatics entry hmem, (hheads entry hmem).1, (hheads entry hmem).2⟩)
          nofun (fun child hchild => ⟨hwild child hchild, (hfruitful child hchild).1,
            (hfruitful child hchild).2⟩) hleaf
    | @param others _ _ _ _ _ _ hends => exact Accepts.below_nil others nofun hends nofun hleaf
    | catchAll => exact absurd rfl hkind
  have hconflicts := conflicts_label_iff hgrown hkind
  have hbump : n.bump.kind = n.kind ∧ n.bump.label = n.label := by
    cases n
    exact ⟨rfl, rfl⟩
  have hinserted : ∀ attempt : Attempt α, Grown letters attempt.2 → attempt.2.kind = n.kind →
      attempt.2.label = n.label → (attempt.1 = none ↔ n.leaf = none) →
      Inserted letters n n.label attempt := by
    intro attempt hbelow hsame hlabel hleaf
    have hat := Inserted.of_below hbelow hsame hlabel (haccepts attempt.1 hleaf) hconflicts
    rwa [List.append_nil] at hat
  split
  next hleaf =>
    exact hinserted _ (grown_bump hgrown) hbump.1 hbump.2
      (by simpa using Option.isSome_iff_ne_none.mp hleaf)
  next hleaf =>
    exact hinserted _ (grown_withLeaf (grown_bump hgrown) (by rwa [hbump.1]) leaf) hbump.1 hbump.2
      (by simpa using hleaf)

/-- A pattern that goes on behind the label of a node, given what becomes of it at the child for
parameters and at the children for text. -/
theorem inserted_behind {m : Mark} {behind : List Mark} {wildAnswer : Option (Attempt α)}
    {staticsAnswer : Option (Option InsertError × List (UInt8 × Node α))}
    (hregular : Regular letters taken (m :: behind)) (hgrown : Grown letters n)
    (hkind : n.kind = .static) :
    (Opening (m :: behind) → WildInserted letters n.wild (m :: behind) wildAnswer) →
    (m.IsText → StaticsInserted letters n.statics (m :: behind) m.byte staticsAnswer) →
    Inserted letters n (n.label ++ m :: behind)
      (if m.opens then
        match wildAnswer with
        | some (e, wild) => (e, n.bump.withWild wild)
        | none => plantBelow leaf (m :: behind) n.bump
      else
        match staticsAnswer with
        | some (e, statics) => (e, n.bump.withStatics statics)
        | none => plantBelow leaf (m :: behind) n.bump) := by
  intro hwild hstatics
  split
  next hopens =>
    have hopening : Opening (m :: behind) := ⟨m, behind, rfl, hopens⟩
    have hinserted := hwild hopening
    split
    next => exact inserted_withWild hgrown hkind hopening hinserted
    next =>
      refine inserted_plantBelow hregular hgrown hkind (by simp) (fun _ => hinserted) ?_
      intro other tail hcons hother
      rw [(List.cons.inj hcons).1, hother.not_opens] at hopens
      exact absurd hopens (by simp)
  next hopens =>
    have hm : m.IsText := hregular.isText_of_not_opens hopens
    have hinserted := hstatics hm
    split
    next => exact inserted_withStatics hm hgrown hkind hinserted
    next =>
      refine inserted_plantBelow hregular hgrown hkind (by simp) ?_ ?_
      · rintro ⟨other, tail, hcons, hopening⟩
        rw [← (List.cons.inj hcons).1] at hopening
        exact absurd hopening hopens
      · intro other tail hcons _
        rw [← (List.cons.inj hcons).1]
        exact hinserted

end Static

section Param

variable {letter : UInt8} {others : List UInt8} {rest : List Mark} {n : Node α}

theorem inserted_withSuffixes (hgrown : Grown (letter :: others) n) (hkind : n.kind = .param)
    (hne : rest ≠ []) {e : Option InsertError} {suffixes : List (Node α)}
    (hchildren : ∀ child ∈ suffixes, EndChild others child)
    (hlabels : (suffixes.map Node.label).Nodup)
    (haccepts : Accepts (fun marks l => ∃ child ∈ n.suffixes, child.Holds marks l) e rest) :
    Inserted (letter :: others) n (n.label ++ rest) (e, n.bump.withSuffixes suffixes) := by
  obtain ⟨_, _, hletters, hletter, hlabel, hstatics, hwild, -, -⟩ := (grown_param_iff hkind).mp hgrown
  refine .of_below ?_ (by cases n; rfl) (by cases n; rfl) ?_
    (conflicts_label_iff hgrown (by simp [hkind]))
  · obtain ⟨rfl, rfl⟩ := List.cons.inj hletters
    cases n
    exact (grown_param_iff (n := (node ..).withSuffixes suffixes) hkind).mpr
      ⟨_, _, rfl, hletter, hlabel, hstatics, hwild, hchildren, hlabels⟩
  · cases rest with
    | nil => exact absurd rfl hne
    | cons m behind => exact haccepts.below_suffixes hstatics hwild

theorem inserted_plantSuffix {closed : Bool} {label behind : List Mark}
    (hend : SegmentEnd closed label) (hbehind : closed = false → behind = [])
    (hregular : Regular others false behind) (hgrown : Grown (letter :: others) n)
    (hkind : n.kind = .param) (hnew : ∀ child ∈ n.suffixes, child.label ≠ label) (leaf : Leaf α) :
    Inserted (letter :: others) n (n.label ++ (label ++ behind))
      (plantSuffix leaf (label ++ behind) n.bump) := by
  obtain ⟨_, _, hletters, -, -, -, -, hsuffixes, hlabels⟩ := (grown_param_iff hkind).mp hgrown
  obtain ⟨rfl, rfl⟩ := List.cons.inj hletters
  have hsegment : segment (label ++ behind) = label.length := segment_of_segmentEnd hend hbehind
  have hbump : n.bump.suffixes = n.suffixes := by
    cases n
    rfl
  obtain ⟨hnone, hplanted, hplantedKind⟩ := plantBelow_grown hregular (grown_bare hend.isText 1)
    (by simp) (fun _ => rfl) (fun _ _ _ _ => nofun) leaf
  obtain ⟨hchild, hlabel⟩ := EndChild.planted hend hbehind hnone hplanted hplantedKind
  have hperm := perm_placeSuffix (plantBelow leaf behind (bare .static 1 label)).2 n.suffixes
  unfold plantSuffix
  simp only [hsegment, List.take_left, List.drop_left, findParam_eq_none hend.isText, hbump]
  refine inserted_withSuffixes hgrown hkind (by simp [hend.ne_nil]) ?_ ?_ ?_
  · intro child hmem
    rcases List.mem_cons.mp (hperm.mem_iff.mp hmem) with rfl | hold
    · exact hchild
    · exact hsuffixes child hold
  · rw [(hperm.map Node.label).nodup_iff, List.map_cons, List.nodup_cons, hlabel]
    refine ⟨?_, hlabels⟩
    intro hmem
    obtain ⟨child, hold, hsame⟩ := List.mem_map.mp hmem
    exact hnew child hold hsame
  · rw [hnone]
    apply accepts_of_none
    intro marks l hheld
    obtain ⟨child, hmem, hholds⟩ := hheld
    obtain ⟨closed', below, hend', rfl, hbelow⟩ := (hsuffixes child hmem).isEnd.holds_cases hholds
    exact not_conflicts_segmentEnds hend' hend hbelow hbehind (hnew child hmem)

/-- A pattern that goes on behind a parameter, given what becomes of it at the ends that are
there. -/
theorem inserted_ending {closed : Bool} {label behind : List Mark}
    {answer : Option (Option InsertError × List (Node α))} (hend : SegmentEnd closed label)
    (hbehind : closed = false → behind = []) (hregular : Regular others false behind)
    (hgrown : Grown (letter :: others) n) (hkind : n.kind = .param) (leaf : Leaf α) :
    EndsInserted others n.suffixes label (label ++ behind) answer →
    Inserted (letter :: others) n (n.label ++ (label ++ behind))
      (match answer with
        | some (e, suffixes) => (e, n.bump.withSuffixes suffixes)
        | none => plantSuffix leaf (label ++ behind) n.bump) := by
  intro hanswer
  obtain ⟨_, _, -, -, -, -, -, -, hlabels⟩ := (grown_param_iff hkind).mp hgrown
  split
  next =>
    obtain ⟨hchildren, hsame, haccepts⟩ := hanswer
    exact inserted_withSuffixes hgrown hkind (by simp [hend.ne_nil]) hchildren (hsame ▸ hlabels)
      haccepts
  next => exact inserted_plantSuffix hend hbehind hregular hgrown hkind hanswer leaf

end Param

mutual

-- Along the recursion of the insertion.  The letters that are left tell at each node which
-- parameter a regular pattern can go on with, so bytes that agree belong to marks that agree.
theorem insertAt_inserted (route : Pattern) (leaf : Leaf α) {letters : List UInt8} {taken : Bool}
    {rest : List Mark} (hregular : Regular letters taken rest) (n : Node α)
    (hgrown : Grown letters n) (hkind : n.kind ≠ .catchAll)
    (hparam : n.kind = .param → n.label <+: rest) :
    Inserted letters n rest (n.insertAt route leaf rest) := by
  match n with
  | .node .static priority label held statics suffixes wild =>
      obtain ⟨htext, hsuffixes, hstatics, hkeys, hwild⟩ := (grown_static_iff rfl).mp hgrown
      obtain ⟨front, behind, below, hrest, hlabel, hcommon, hdiffer⟩ := exists_common rest label
      have hdrop : rest.drop front.length = behind := by rw [hrest, List.drop_left]
      rw [insertAt, hcommon, hdrop]
      split
      next hcut =>
        cases below with
        | nil =>
            rw [hlabel, List.append_nil] at hcut
            exact absurd hcut (Nat.lt_irrefl _)
        | cons m tail => exact inserted_cut hregular hgrown rfl hrest hlabel hcommon hdiffer leaf
      next hcut =>
        -- The pattern goes on behind the whole label.
        have hfront : front = label := by
          cases below with
          | nil => rw [hlabel, List.append_nil]
          | cons m tail =>
              refine absurd ?_ hcut
              rw [hlabel, List.length_append, List.length_cons]
              omega
        subst hfront
        obtain ⟨taken', hbehind⟩ := (hrest ▸ hregular).drop_front htext
        rw [hrest]
        cases behind with
        | nil =>
            rw [List.append_nil]
            exact inserted_nil route hgrown nofun
        | cons m behind =>
            dsimp only
            rw [if_neg nofun]
            exact inserted_behind hbehind hgrown rfl
              (fun hopening => insertWild_inserted route leaf hbehind hopening wild hwild)
              (fun hm => insertStatics_inserted route leaf hm hbehind [] statics nofun hstatics hkeys)
  | .node .param priority label held statics suffixes wild =>
      obtain ⟨letter, others, rfl, hletter, hlabel, hstatics, hwild, hsuffixes, hlabels⟩ :=
        (grown_param_iff rfl).mp hgrown
      obtain ⟨behind, hrest⟩ := hparam rfl
      change label ++ behind = rest at hrest
      change label = _ at hlabel
      rw [← hrest] at hregular ⊢
      rw [insertAt, common_append, if_neg (Nat.lt_irrefl _), List.drop_left]
      rw [hlabel] at hregular
      obtain ⟨_, hothers, hbehind⟩ := hregular.behind_param hletter
      obtain rfl := (List.cons.inj hothers).2
      -- Either the pattern ends with the parameter, or its segment has an end of its own.
      rcases hbehind.exists_segmentEnd with
        rfl | ⟨closed, ending, below, hend, rfl, hbelow, hrest⟩
      · rw [List.append_nil]
        exact inserted_nil route hgrown nofun
      · have hinserted := insertSuffixes_inserted route leaf hend hbelow hbehind suffixes hsuffixes
          hlabels
        have hgrows := inserted_ending hend hbelow hrest hgrown rfl leaf hinserted
        split
        next hnil => exact absurd hnil (by simp [hend.ne_nil])
        next next rest' hcons =>
          rw [if_pos rfl, ← hcons]
          exact hgrows
  | .node .catchAll priority label held statics suffixes wild => exact absurd rfl hkind
termination_by structural n

theorem insertSuffixes_inserted (route : Pattern) (leaf : Leaf α) {letters : List UInt8}
    {closed : Bool} {label behind : List Mark} (hend : SegmentEnd closed label)
    (hbehind : closed = false → behind = [])
    (hregular : Regular letters true (label ++ behind)) (suffixes : List (Node α))
    (hsuffixes : ∀ child ∈ suffixes, EndChild letters child)
    (hlabels : (suffixes.map Node.label).Nodup) :
    EndsInserted letters suffixes label (label ++ behind)
      (insertSuffixes route leaf (label ++ behind) suffixes) := by
  match suffixes with
  | [] => exact nofun
  | n :: others =>
      rw [List.forall_mem_cons] at hsuffixes
      rw [List.map_cons, List.nodup_cons] at hlabels
      have htake : (label ++ behind).take (segment (label ++ behind)) = label := by
        rw [segment_of_segmentEnd hend hbehind, List.take_left]
      have hothers : ∀ child ∈ n :: others, EndChild letters child :=
        List.forall_mem_cons.mpr hsuffixes
      have hnot : ∀ child ∈ n :: others, child.label ≠ label → ∀ marks l,
          child.Holds marks l → ¬ Conflicts marks (label ++ behind) := by
        intro child hmem hne marks l hholds
        obtain ⟨closed', below, hend', rfl, hbelow⟩ := (hothers child hmem).isEnd.holds_cases hholds
        exact not_conflicts_segmentEnds hend' hend hbelow hbehind hne
      rw [insertSuffixes, htake]
      split
      next hbytes =>
        obtain ⟨hkind, -, closed', hend', -⟩ := hsuffixes.1.isEnd
        have hlabel : n.label = label := eq_of_bytes hend'.isText hend.isText hbytes
        subst hlabel
        have hinserted := insertAt_inserted route leaf hregular n hsuffixes.1.grown
          (by simp [hkind]) (by simp [hkind])
        have hsame := hinserted.label
        rw [common_append, List.take_length] at hsame
        refine ⟨?_, ?_, ?_⟩
        · rw [List.forall_mem_cons]
          exact ⟨hsuffixes.1.inserted hend hbehind hinserted, hsuffixes.2⟩
        · rw [List.map_cons, List.map_cons, hsame]
        · have helsewhere : ∀ marks l, (∃ child ∈ others, child.Holds marks l) →
              ¬ Conflicts marks (n.label ++ behind) := by
            intro marks l helsewhere
            obtain ⟨child, hmem, hholds⟩ := helsewhere
            refine hnot child (List.mem_cons_of_mem _ hmem) ?_ marks l hholds
            intro hsame
            exact hlabels.1 (List.mem_map.mpr ⟨child, hmem, hsame⟩)
          apply (hinserted.accepts.beside helsewhere).congr
          intro marks l
          simp
      next hbytes =>
        have hne : n.label ≠ label := fun hsame => hbytes (congrArg Mark.bytes hsame)
        have hinserted := insertSuffixes_inserted route leaf hend hbehind hregular others
          hsuffixes.2 hlabels.2
        cases hanswer : insertSuffixes route leaf (label ++ behind) others with
        | none =>
            rw [hanswer] at hinserted
            exact List.forall_mem_cons.mpr ⟨hne, hinserted⟩
        | some attempt =>
            rw [hanswer] at hinserted
            obtain ⟨hchildren, hsame, haccepts⟩ := hinserted
            refine ⟨List.forall_mem_cons.mpr ⟨hsuffixes.1, hchildren⟩, ?_, ?_⟩
            · rw [List.map_cons, List.map_cons, hsame]
            · apply (haccepts.beside (hnot n (List.mem_cons_self ..) hne)).congr
              intro marks l
              simp [or_comm]
termination_by structural suffixes

theorem insertWild_inserted (route : Pattern) (leaf : Leaf α) {letters : List UInt8}
    {taken : Bool} {rest : List Mark} (hregular : Regular letters taken rest)
    (hopening : Opening rest) (wild : Option (Node α))
    (hwild : ∀ child, wild = some child → WildChild letters child) :
    WildInserted letters wild rest (insertWild route leaf rest wild) := by
  match wild with
  | none => rfl
  | some n =>
      have hchild := hwild n rfl
      rw [insertWild]
      split
      next hrefused =>
        obtain ⟨marks, l, hholds⟩ := hchild.fruitful
        refine ⟨⟨grown_bump hchild.grown, ?_, marks, l, holds_bump.mpr hholds⟩, ?_⟩
        · have hkind := hchild.kind
          cases n
          exact hkind
        · exact (hchild.refused hregular hopening hrefused _).congr (by simp)
      next hnot =>
        have hprefix := hchild.prefix_of_not_refused hregular hopening hnot
        have hinserted := insertAt_inserted route leaf hregular n hchild.grown
          (fun hkind => hnot (.inr hkind)) (fun _ => hprefix)
        exact ⟨hchild.inserted hinserted, hinserted.accepts.congr (by simp)⟩
termination_by structural wild

theorem insertStatics_inserted (route : Pattern) (leaf : Leaf α) {letters : List UInt8}
    {taken : Bool} {m : Mark} {behind : List Mark} (htext : m.IsText)
    (hregular : Regular letters taken (m :: behind)) (before statics : List (UInt8 × Node α))
    (hbefore : ∀ entry ∈ before, entry.1 ≠ m.byte)
    (hstatics : ∀ entry ∈ before ++ statics, StaticChild letters entry)
    (hkeys : ((before ++ statics).map Prod.fst).Nodup) :
    StaticsInserted letters (before ++ statics) (m :: behind) m.byte
      (insertStatics route leaf (m :: behind) m.byte before statics) := by
  match statics with
  | [] =>
      rw [List.append_nil, insertStatics]
      exact hbefore
  | (other, n) :: after =>
      rw [insertStatics]
      split
      next hbyte =>
        subst hbyte
        have hchild : StaticChild letters (m.byte, n) := hstatics _ (by simp)
        have hinserted := insertAt_inserted route leaf hregular n hchild.grown
          (by simp [hchild.kind]) (by simp [hchild.kind])
        have hafter : ∀ entry ∈ after, entry.1 ≠ m.byte := by
          intro entry hmem hsame
          rw [List.map_append, List.map_cons, List.nodup_append] at hkeys
          exact (List.nodup_cons.mp hkeys.2.1).1 (List.mem_map.mpr ⟨entry, hmem, hsame⟩)
        have hperm := perm_advance before (m.byte, (n.insertAt route leaf (m :: behind)).2) after
        refine ⟨?_, ?_, ?_⟩
        · intro entry hmem
          rcases List.mem_cons.mp (hperm.mem_iff.mp hmem) with rfl | hold
          · exact hchild.inserted htext hinserted
          · refine hstatics entry ?_
            rw [List.mem_append] at hold ⊢
            exact hold.imp_right (List.mem_cons_of_mem _)
        · refine (hperm.map Prod.fst).trans ?_
          have hmiddle : (before ++ (m.byte, n) :: after).Perm ((m.byte, n) :: (before ++ after)) :=
            List.perm_middle
          exact (hmiddle.map Prod.fst).symm
        · have helsewhere : ∀ marks l, (∃ entry ∈ before ++ after, entry.2.Holds marks l) →
              ¬ Conflicts marks (m :: behind) := by
            intro marks l helsewhere
            obtain ⟨entry, hmem, hholds⟩ := helsewhere
            have hentry : entry ∈ before ++ (m.byte, n) :: after := by
              rw [List.mem_append] at hmem ⊢
              exact hmem.imp_right (List.mem_cons_of_mem _)
            have hne := (List.mem_append.mp hmem).elim (hbefore entry) (hafter entry)
            exact (hstatics entry hentry).not_conflicts hne hholds
          apply (hinserted.accepts.beside helsewhere).congr
          intro marks l
          simp [or_and_right, exists_or, or_left_comm]
      next hbyte =>
        have hperm : (((other, n) :: before) ++ after).Perm (before ++ (other, n) :: after) :=
          List.perm_middle.symm
        have hinserted := insertStatics_inserted route leaf htext hregular ((other, n) :: before)
          after (List.forall_mem_cons.mpr ⟨hbyte, hbefore⟩)
          (fun entry hmem => hstatics entry (hperm.mem_iff.mp hmem))
          ((hperm.map Prod.fst).nodup_iff.mpr hkeys)
        exact hinserted.perm hperm.symm
termination_by structural statics

end

/-! ## Whole trees -/

/-- A tree that regular patterns can be added to. -/
structure IsRoot (n : Node α) : Prop where
  grown : Grown Pattern.letters n
  kind : n.kind = .static
  not_holds_nil : ∀ l, ¬ n.Holds [] l

theorem isRoot_empty : IsRoot (.empty : Node α) where
  grown := grown_bare (by simp) 0
  kind := rfl
  not_holds_nil l hholds := by
    obtain ⟨below, -, hbelow⟩ := holds_iff.mp hholds
    exact not_holdsBelow_bare hbelow

section Root

variable {n : Node α}

theorem IsRoot.leaf_eq_none (hroot : IsRoot n) (hlabel : n.label = []) : n.leaf = none := by
  cases hleaf : n.leaf with
  | none => rfl
  | some l =>
      have hholds : n.Holds n.label l := by
        rw [holds_iff]
        exact ⟨[], (List.append_nil _).symm, .inl ⟨rfl, hleaf⟩⟩
      rw [hlabel] at hholds
      exact absurd hholds (hroot.not_holds_nil l)

theorem not_holds_of_isBare (hleaf : n.leaf = none) (hbare : n.isBare = true) (marks : List Mark)
    (l : Leaf α) : ¬ n.Holds marks l := by
  intro hholds
  obtain ⟨below, -, hbelow⟩ := holds_iff.mp hholds
  simp only [isBare, Bool.and_eq_true, List.isEmpty_iff, Option.isNone_iff_eq_none] at hbare
  simp [HoldsBelow, hleaf, hbare] at hbelow

/-- The first pattern of a tree. -/
theorem grown_plant {letters : List UInt8} {taken : Bool} {rest : List Mark}
    (hregular : Regular letters taken rest) (leaf : Leaf α) (hgrown : Grown letters n)
    (hkind : n.kind = .static) :
    (plant leaf rest n).1 = none ∧ Grown letters (plant leaf rest n).2 ∧
      (plant leaf rest n).2.kind = .static := by
  obtain ⟨hlabel, hsuffixes, hstatics, hdistinct, hchild⟩ := (grown_static_iff hkind).mp hgrown
  obtain ⟨front, behind, taken', rfl, hfront, hbehind, hend⟩ := hregular.exists_front
  rcases hend with rfl | hopening
  · rw [List.append_nil, plant_text leaf n hfront]
    refine ⟨rfl, ?_, hkind⟩
    exact (grown_static_iff (n := (n.withLabel front).withLeaf leaf) hkind).mpr
      ⟨hfront, hsuffixes, hstatics, hdistinct, hchild⟩
  · obtain ⟨child, hplant, hwild⟩ := plant_grown hbehind hopening hfront leaf n
    rw [hplant]
    have hnew : ∀ other, some child = some other → WildChild letters other := by
      intro other hother
      exact Option.some.inj hother ▸ hwild
    unfold withText
    split
    · exact ⟨rfl, (grown_static_iff (n := n.withWild child) hkind).mpr
        ⟨hlabel, hsuffixes, hstatics, hdistinct, hnew⟩, hkind⟩
    · exact ⟨rfl, (grown_static_iff (n := (n.withLabel front).withWild child) hkind).mpr
        ⟨hfront, hsuffixes, hstatics, hdistinct, hnew⟩, hkind⟩

/-- A tree accepts a regular pattern just when it conflicts with none that the tree holds, and then
it holds the pattern besides what it held before. -/
theorem IsRoot.insert (hroot : IsRoot n) {pattern : String} (value : α) {route : Pattern}
    {names : List Bytes} (hroute : (Pattern.ofString pattern).normalize = .ok (route, names))
    (hregular : Regular Pattern.letters false route.marks) (hne : route.marks ≠ []) :
    IsRoot (n.insert pattern value).2 ∧
      Accepts n.Holds (n.insert pattern value).1 route.marks ∧
      Adds n.Holds (n.insert pattern value).2.Holds (n.insert pattern value).1 route.marks
        ⟨value, names⟩ := by
  have hadds : Adds n.Holds (n.insert pattern value).2.Holds (n.insert pattern value).1 route.marks
      ⟨value, names⟩ :=
    insert_adds hroute hregular.named (fun hlabel _ => hroot.leaf_eq_none hlabel)
  have hinserted : Grown Pattern.letters (n.insert pattern value).2 ∧
      (n.insert pattern value).2.kind = .static ∧
      Accepts n.Holds (n.insert pattern value).1 route.marks := by
    unfold Node.insert
    rw [hroute]
    dsimp only
    split
    next hbare =>
      rw [Bool.and_eq_true, List.isEmpty_iff] at hbare
      have hkind : n.bump.kind = .static := by
        cases n
        exact hroot.kind
      obtain ⟨hnone, hplanted, hplantedKind⟩ :=
        grown_plant hregular ⟨value, names⟩ (grown_bump hroot.grown) hkind
      refine ⟨hplanted, hplantedKind, ?_⟩
      rw [hnone]
      apply accepts_of_none
      intro marks l hholds
      exact absurd hholds (not_holds_of_isBare (hroot.leaf_eq_none hbare.1) hbare.2 marks l)
    next =>
      have hinserted := insertAt_inserted route ⟨value, names⟩ hregular n hroot.grown
        (by simp [hroot.kind]) (by simp [hroot.kind])
      exact ⟨hinserted.grown, hinserted.kind.trans hroot.kind, hinserted.accepts⟩
  refine ⟨⟨hinserted.1, hinserted.2.1, ?_⟩, hinserted.2.2, hadds⟩
  intro l hholds
  rcases (hadds [] l).mp hholds with hold | ⟨-, hnil, -⟩
  · exact hroot.not_holds_nil l hold
  · exact hne hnil.symm

end Root

end Node
end WebApp
