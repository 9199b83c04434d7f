import Mathlib.Tactic
import WebApp.Proofs.Assoc
import WebApp.Proofs.Routing.Values

/-!
# The layouts of trees

Two trees have the same layout when they differ at most in how many patterns went through their
nodes, and in the order that children have for this reason.  A path is matched by trees of one
layout alike, and a pattern is accepted by them alike, after which they have one layout again; only
the pattern that is named in a conflict may be another.  An attempt that ends in a conflict leaves
the layout of the tree as it was.
-/

namespace WebApp

variable {α : Type}

/-- A tree of patterns in which children that go on with different bytes have no order. -/
inductive Layout (α : Type) where
  | layout (kind : NodeKind) (label : List Mark) (leaf : Option (Leaf α))
      (static? : UInt8 → Option (Layout α)) (suffixes : List (Layout α)) (wild : Option (Layout α))

/-- The label of a layout. -/
def Layout.label : Layout α → List Mark
  | .layout _ label _ _ _ _ => label

/-- Whether another pattern is in the way. -/
def InsertError.isConflict : InsertError → Bool
  | .conflict _ => true
  | .conflictUntold => true
  | _ => false

/-- The error without the pattern that is in the way. -/
def InsertError.unnamed (e : InsertError) : InsertError :=
  if e.isConflict then .conflict "" else e

theorem isConflict_conflict (p : Pattern) (names : List Bytes) :
    (p.conflict names).isConflict = true := by
  unfold Pattern.conflict
  split <;> rfl

theorem InsertError.unnamed_eq {e e' : InsertError} (he : e.isConflict = true)
    (he' : e'.isConflict = true) : e.unnamed = e'.unnamed := by
  rw [unnamed, unnamed, if_pos he, if_pos he']

namespace Node

/-- What holds of a node if it holds of all its children holds of all nodes. -/
@[elab_as_elim]
theorem induct {P : Node α → Prop}
    (node : ∀ kind priority label leaf statics suffixes wild,
      (∀ entry ∈ statics, P entry.2) → (∀ child ∈ suffixes, P child) →
      (∀ child, wild = some child → P child) →
      P (.node kind priority label leaf statics suffixes wild)) (n : Node α) : P n :=
  @Node.rec α P (fun statics => ∀ entry ∈ statics, P entry.2)
    (fun suffixes => ∀ child ∈ suffixes, P child) (fun wild => ∀ child, wild = some child → P child)
    (fun entry => P entry.2)
    node (by simp) (fun _ _ hentry hrest => List.forall_mem_cons.mpr ⟨hentry, hrest⟩)
    (by simp) (fun _ _ hchild hrest => List.forall_mem_cons.mpr ⟨hchild, hrest⟩)
    (by simp) (fun _ hchild _ hsome => Option.some.inj hsome ▸ hchild) (fun _ _ hn => hn) n

mutual

def layout (n : Node α) : Layout α :=
  match n with
  | .node kind _ label leaf statics suffixes wild =>
    .layout kind label leaf (layoutsOfStatics statics) (layoutsOfSuffixes suffixes)
      (layoutOfWild wild)

def layoutsOfStatics (statics : List (UInt8 × Node α)) : UInt8 → Option (Layout α) :=
  match statics with
  | [] => fun _ => none
  | (byte, n) :: others => fun next =>
    if byte = next then some n.layout else layoutsOfStatics others next

def layoutsOfSuffixes (suffixes : List (Node α)) : List (Layout α) :=
  match suffixes with
  | [] => []
  | n :: others => n.layout :: layoutsOfSuffixes others

def layoutOfWild (wild : Option (Node α)) : Option (Layout α) :=
  match wild with
  | none => none
  | some n => some n.layout

end

theorem layoutsOfStatics_eq (statics : List (UInt8 × Node α)) (byte : UInt8) :
    layoutsOfStatics statics byte = (Assoc.get? byte statics).map layout := by
  induction statics with
  | nil => rfl
  | cons entry others ih =>
      rw [layoutsOfStatics, Assoc.get?]
      dsimp only
      split
      next => rfl
      next => exact ih

theorem layoutsOfSuffixes_eq (suffixes : List (Node α)) :
    layoutsOfSuffixes suffixes = suffixes.map layout := by
  induction suffixes with
  | nil => rfl
  | cons n others ih => rw [layoutsOfSuffixes, ih, List.map_cons]

theorem layoutOfWild_eq (wild : Option (Node α)) : layoutOfWild wild = wild.map layout := by
  cases wild <;> rfl

/-- Two nodes have one layout when they have the same kind, label and leaf, and their children have
the same layouts. -/
theorem layout_eq_iff {n n' : Node α} :
    n.layout = n'.layout ↔ n.kind = n'.kind ∧ n.label = n'.label ∧ n.leaf = n'.leaf ∧
      (∀ byte, (Assoc.get? byte n.statics).map layout = (Assoc.get? byte n'.statics).map layout) ∧
      n.suffixes.map layout = n'.suffixes.map layout ∧ n.wild.map layout = n'.wild.map layout := by
  cases n with
  | node kind priority label leaf statics suffixes wild =>
      cases n' with
      | node kind' priority' label' leaf' statics' suffixes' wild' =>
          rw [layout, layout, Layout.layout.injEq, funext_iff]
          simp only [layoutsOfStatics_eq, layoutsOfSuffixes_eq, layoutOfWild_eq]
          exact Iff.rfl

/-! ## Changes of a node -/

section Changes

variable {n n' : Node α}

@[simp] theorem layout_bump : n.bump.layout = n.layout :=
  layout_eq_iff.mpr ⟨rfl, rfl, rfl, fun _ => rfl, rfl, rfl⟩

theorem withLabel_alike (hlayout : n.layout = n'.layout) (label : List Mark) :
    (n.withLabel label).layout = (n'.withLabel label).layout := by
  obtain ⟨hkind, -, hleaf, hstatics, hsuffixes, hwild⟩ := layout_eq_iff.mp hlayout
  exact layout_eq_iff.mpr ⟨hkind, rfl, hleaf, hstatics, hsuffixes, hwild⟩

theorem withLeaf_alike (hlayout : n.layout = n'.layout) (leaf : Leaf α) :
    (n.withLeaf leaf).layout = (n'.withLeaf leaf).layout := by
  obtain ⟨hkind, hlabel, -, hstatics, hsuffixes, hwild⟩ := layout_eq_iff.mp hlayout
  exact layout_eq_iff.mpr ⟨hkind, hlabel, rfl, hstatics, hsuffixes, hwild⟩

theorem withStatics_alike (hlayout : n.layout = n'.layout)
    {statics statics' : List (UInt8 × Node α)} (hstatics : ∀ byte,
      (Assoc.get? byte statics).map layout = (Assoc.get? byte statics').map layout) :
    (n.withStatics statics).layout = (n'.withStatics statics').layout := by
  obtain ⟨hkind, hlabel, hleaf, -, hsuffixes, hwild⟩ := layout_eq_iff.mp hlayout
  exact layout_eq_iff.mpr ⟨hkind, hlabel, hleaf, hstatics, hsuffixes, hwild⟩

theorem withSuffixes_alike (hlayout : n.layout = n'.layout) {suffixes suffixes' : List (Node α)}
    (hsuffixes : suffixes.map layout = suffixes'.map layout) :
    (n.withSuffixes suffixes).layout = (n'.withSuffixes suffixes').layout := by
  obtain ⟨hkind, hlabel, hleaf, hstatics, -, hwild⟩ := layout_eq_iff.mp hlayout
  exact layout_eq_iff.mpr ⟨hkind, hlabel, hleaf, hstatics, hsuffixes, hwild⟩

theorem withWild_alike (hlayout : n.layout = n'.layout) {wild wild' : Node α}
    (hwild : wild.layout = wild'.layout) :
    (n.withWild wild).layout = (n'.withWild wild').layout := by
  obtain ⟨hkind, hlabel, hleaf, hstatics, hsuffixes, -⟩ := layout_eq_iff.mp hlayout
  exact layout_eq_iff.mpr ⟨hkind, hlabel, hleaf, hstatics, hsuffixes, congrArg some hwild⟩

theorem cut_alike (hlayout : n.layout = n'.layout) (length : Nat) :
    (n.cut length).layout = (n'.cut length).layout := by
  obtain ⟨hkind, hlabel, hleaf, hstatics, hsuffixes, hwild⟩ := layout_eq_iff.mp hlayout
  unfold cut
  rw [← hlabel]
  split
  next => exact hlayout
  next m rest _ =>
    refine layout_eq_iff.mpr ⟨hkind, rfl, rfl, ?_, rfl, rfl⟩
    intro byte
    have hlower : ∀ priority priority',
        (node .static priority (m :: rest) n.leaf n.statics n.suffixes n.wild).layout =
          (node .static priority' (m :: rest) n'.leaf n'.statics n'.suffixes n'.wild).layout :=
      fun _ _ => layout_eq_iff.mpr ⟨rfl, rfl, hleaf, hstatics, hsuffixes, hwild⟩
    simp only [Node.statics, Assoc.get?]
    split
    next => exact congrArg some (hlower _ _)
    next => rfl

/-- Whether anything is below a node is a matter of its layout. -/
theorem isBare_alike (hlayout : n.layout = n'.layout) : n.isBare = n'.isBare := by
  obtain ⟨-, -, -, hstatics, hsuffixes, hwild⟩ := layout_eq_iff.mp hlayout
  have hchild : ∀ statics : List (UInt8 × Node α),
      statics.isEmpty = true ↔ ∀ byte, (Assoc.get? byte statics).map layout = none := by
    intro statics
    cases statics with
    | nil => simp [Assoc.get?]
    | cons entry others =>
        simp only [List.isEmpty_cons, Bool.false_eq_true, false_iff, not_forall]
        exact ⟨entry.1, by simp [Assoc.get?]⟩
  have hempty : n.statics.isEmpty = n'.statics.isEmpty := by
    rw [Bool.eq_iff_iff, hchild, hchild]
    exact forall_congr' fun byte => by rw [hstatics byte]
  have hends : n.suffixes.isEmpty = n'.suffixes.isEmpty := by
    rw [← List.isEmpty_map (f := layout), hsuffixes, List.isEmpty_map]
  have hnone : n.wild.isNone = n'.wild.isNone := by
    rw [← Option.isNone_map (f := layout), hwild, Option.isNone_map]
  rw [isBare, isBare, hempty, hends, hnone]

end Changes

/-! ## Adding patterns -/

/-- What can be seen of an attempt but for the pattern that is named in a conflict. -/
def outline (attempt : Attempt α) : Option InsertError × Layout α :=
  (attempt.1.map InsertError.unnamed, attempt.2.layout)

theorem outline_eq_iff {attempt attempt' : Attempt α} :
    outline attempt = outline attempt' ↔
      attempt.1.map InsertError.unnamed = attempt'.1.map InsertError.unnamed ∧
        attempt.2.layout = attempt'.2.layout :=
  Prod.mk_inj

theorem outline_congr (e : Option InsertError) {n n' : Node α} (hlayout : n.layout = n'.layout) :
    outline (e, n) = outline (e, n') :=
  outline_eq_iff.mpr ⟨rfl, hlayout⟩

theorem isConflict_conflicting (route : Pattern) (rest : List Mark) (n : Node α) :
    (conflicting route rest n).isConflict = true := by
  unfold conflicting
  split <;> exact isConflict_conflict ..

theorem outline_conflicting (route : Pattern) (rest : List Mark) (n n' : Node α)
    {left left' : Node α} (hlayout : left.layout = left'.layout) :
    outline (some (conflicting route rest n), left) =
      outline (some (conflicting route rest n'), left') :=
  outline_eq_iff.mpr ⟨congrArg some (InsertError.unnamed_eq (isConflict_conflicting ..)
    (isConflict_conflicting ..)), hlayout⟩

theorem plant_alike (leaf : Leaf α) (rest : List Mark) {n n' : Node α}
    (hlayout : n.layout = n'.layout) :
    outline (plant leaf rest n) = outline (plant leaf rest n') := by
  have hlabelled : ∀ start, (if start = 0 then n else n.withLabel (rest.take start)).layout =
      (if start = 0 then n' else n'.withLabel (rest.take start)).layout := by
    intro start
    split
    next => exact hlayout
    next => exact withLabel_alike hlayout _
  rw [plant, plant]
  split
  next => exact outline_congr _ hlayout
  next => exact outline_congr _ (withLeaf_alike (withLabel_alike hlayout _) leaf)
  next start stop _ =>
    dsimp only
    split
    next =>
      split
      next => exact outline_congr _ (withWild_alike (hlabelled start) rfl)
      next => exact outline_congr _ hlayout
    next =>
      split
      next => exact outline_congr _ (hlabelled start)
      next =>
        split
        next => exact outline_congr _ (withWild_alike (hlabelled start) rfl)
        next => exact outline_congr _ (withWild_alike (hlabelled start) rfl)

theorem plantBelow_alike (leaf : Leaf α) (rest : List Mark) {n n' : Node α}
    (hlayout : n.layout = n'.layout) :
    outline (plantBelow leaf rest n) = outline (plantBelow leaf rest n') := by
  cases rest with
  | nil =>
      rw [plantBelow, plantBelow]
      exact outline_congr _ (withLeaf_alike hlayout leaf)
  | cons m behind =>
      rw [plantBelow, plantBelow]
      split
      next => exact plant_alike leaf _ hlayout
      next =>
        refine outline_congr _ (withStatics_alike hlayout fun byte => ?_)
        obtain ⟨-, -, -, hstatics, -, -⟩ := layout_eq_iff.mp hlayout
        rw [Assoc.get?_append, Assoc.get?_append, Option.map_or, Option.map_or, hstatics]

theorem placeSuffix_alike {child : Node α} {suffixes suffixes' : List (Node α)}
    (hsuffixes : suffixes.map layout = suffixes'.map layout) :
    (placeSuffix child suffixes).map layout = (placeSuffix child suffixes').map layout := by
  have hplace : ∀ ends : List (Node α),
      halvingPlace (fun other => decide (child.label.length ≤ other.label.length)) ends 0
        ends.length =
      halvingPlace (fun other : Layout α => decide (child.label.length ≤ other.label.length))
        (ends.map layout) 0 (ends.map layout).length := by
    intro ends
    rw [halvingPlace_map, List.length_map]
    congr 1
    funext other
    cases other
    rfl
  unfold placeSuffix
  dsimp only
  rw [hplace, hplace, hsuffixes, List.map_append, List.map_append, List.map_cons, List.map_cons,
    List.map_take, List.map_take, List.map_drop, List.map_drop, hsuffixes]

theorem plantSuffix_alike (leaf : Leaf α) (rest : List Mark) {n n' : Node α}
    (hlayout : n.layout = n'.layout) :
    outline (plantSuffix leaf rest n) = outline (plantSuffix leaf rest n') := by
  obtain ⟨-, -, -, -, hsuffixes, -⟩ := layout_eq_iff.mp hlayout
  unfold plantSuffix
  dsimp only
  split
  next => exact outline_congr _ hlayout
  next => exact outline_congr _ (withSuffixes_alike hlayout (placeSuffix_alike hsuffixes))

/-! ## Adding at a node -/

theorem insertStatics_eq_none_iff {route : Pattern} {leaf : Leaf α} {rest : List Mark}
    {byte : UInt8} {before statics : List (UInt8 × Node α)} :
    insertStatics route leaf rest byte before statics = none ↔ Assoc.get? byte statics = none := by
  induction statics generalizing before with
  | nil => simp [insertStatics, Assoc.get?]
  | cons entry after ih =>
      rw [insertStatics, Assoc.get?]
      split
      next => simp
      next => exact ih

/-- The order of children is of no importance where each goes on with another byte. -/
theorem get?_advance {before after : List (UInt8 × Node α)} {byte : UInt8} (child : Node α)
    (hbefore : Assoc.get? byte before.reverse = none) (next : UInt8) :
    Assoc.get? next (advance before (byte, child) after) =
      if byte = next then some child else Assoc.get? next (before.reverse ++ after) := by
  unfold advance
  dsimp only
  generalize (fun other : UInt8 × Node α => decide (other.2.priority < child.priority)) = isBehind
  have hparts : before.reverse =
      (before.dropWhile isBehind).reverse ++ (before.takeWhile isBehind).reverse := by
    rw [← List.reverse_append, List.takeWhile_append_dropWhile]
  rw [hparts] at hbefore ⊢
  rw [Assoc.get?_append, Option.or_eq_none_iff] at hbefore
  rw [Assoc.get?_append, Assoc.get?]
  split
  next hnext => rw [← hnext, hbefore.1, Option.none_or]
  next => rw [List.append_assoc, Assoc.get?_append _ (List.reverse (List.dropWhile _ _))]

theorem insertStatics_spec (route : Pattern) (leaf : Leaf α) (rest : List Mark) {byte : UInt8}
    (before : List (UInt8 × Node α)) {statics : List (UInt8 × Node α)} {child : Node α}
    (hbefore : Assoc.get? byte before.reverse = none)
    (hchild : Assoc.get? byte statics = some child) :
    ∃ statics', insertStatics route leaf rest byte before statics =
        some ((child.insertAt route leaf rest).1, statics') ∧
      ∀ next, Assoc.get? next statics' =
        if byte = next then some (child.insertAt route leaf rest).2
        else Assoc.get? next (before.reverse ++ statics) := by
  induction statics generalizing before with
  | nil => simp [Assoc.get?] at hchild
  | cons entry after ih =>
      rw [Assoc.get?] at hchild
      rw [insertStatics]
      split at hchild
      next hbyte =>
        rw [Option.some.injEq] at hchild
        rw [if_pos hbyte, hchild]
        refine ⟨_, rfl, fun next => ?_⟩
        rw [get?_advance _ hbefore]
        split
        next => rfl
        next hnext =>
          rw [Assoc.get?_append, Assoc.get?_append, Assoc.get?, if_neg (hbyte ▸ hnext)]
      next hbyte =>
        rw [if_neg hbyte]
        have hfront : Assoc.get? byte (entry :: before).reverse = none := by
          rw [List.reverse_cons, Assoc.get?_append, hbefore, Option.none_or, Assoc.get?,
            if_neg hbyte, Assoc.get?]
        obtain ⟨statics', hinsert, hget⟩ := ih (entry :: before) hfront hchild
        refine ⟨statics', hinsert, ?_⟩
        rw [List.reverse_cons, List.append_assoc, List.singleton_append] at hget
        exact hget

section Children

variable (route : Pattern) (leaf : Leaf α) (rest : List Mark)

theorem insertSuffixes_alike {suffixes suffixes' : List (Node α)}
    (hchildren : ∀ child ∈ suffixes, ∀ child' : Node α, child.layout = child'.layout →
      outline (child.insertAt route leaf rest) = outline (child'.insertAt route leaf rest))
    (hsuffixes : suffixes.map layout = suffixes'.map layout) :
    (insertSuffixes route leaf rest suffixes).map
        (fun answer => (answer.1.map InsertError.unnamed, answer.2.map layout)) =
      (insertSuffixes route leaf rest suffixes').map
        fun answer => (answer.1.map InsertError.unnamed, answer.2.map layout) := by
  induction suffixes generalizing suffixes' with
  | nil =>
      rw [List.map_nil, eq_comm, List.map_eq_nil_iff] at hsuffixes
      rw [hsuffixes]
  | cons child others ih =>
      cases suffixes' with
      | nil => simp at hsuffixes
      | cons child' others' =>
          rw [List.map_cons, List.map_cons, List.cons.injEq] at hsuffixes
          obtain ⟨hlayout, hothers⟩ := hsuffixes
          rw [List.forall_mem_cons] at hchildren
          obtain ⟨-, hlabel, -⟩ := layout_eq_iff.mp hlayout
          rw [insertSuffixes, insertSuffixes, ← hlabel]
          split
          next =>
            obtain ⟨he, hn⟩ := outline_eq_iff.mp (hchildren.1 child' hlayout)
            simp only [Option.map_some, List.map_cons, he, hn, hothers]
          next =>
            have hrest := congrArg (Option.map fun answer => (answer.1, child.layout :: answer.2))
              (ih hchildren.2 hothers)
            rw [Option.map_map, Option.map_map] at hrest ⊢
            simpa only [Function.comp_def, List.map_cons, hlayout] using hrest

theorem insertStatics_alike (byte : UInt8) {statics statics' : List (UInt8 × Node α)}
    (hchildren : ∀ entry ∈ statics, ∀ child' : Node α, entry.2.layout = child'.layout →
      outline (entry.2.insertAt route leaf rest) = outline (child'.insertAt route leaf rest))
    (hstatics : ∀ next,
      (Assoc.get? next statics).map layout = (Assoc.get? next statics').map layout) :
    (insertStatics route leaf rest byte [] statics).map (fun answer =>
        (answer.1.map InsertError.unnamed, fun next => (Assoc.get? next answer.2).map layout)) =
      (insertStatics route leaf rest byte [] statics').map fun answer =>
        (answer.1.map InsertError.unnamed, fun next => (Assoc.get? next answer.2).map layout) := by
  have hbyte := hstatics byte
  cases hchild : Assoc.get? byte statics with
  | none =>
      rw [hchild, Option.map_none, eq_comm, Option.map_eq_none_iff] at hbyte
      rw [insertStatics_eq_none_iff.mpr hchild, insertStatics_eq_none_iff.mpr hbyte]
  | some child =>
      rw [hchild, Option.map_some, eq_comm, Option.map_eq_some_iff] at hbyte
      obtain ⟨child', hchild', hlayout⟩ := hbyte
      obtain ⟨changed, hinsert, hget⟩ := insertStatics_spec route leaf rest [] rfl hchild
      obtain ⟨changed', hinsert', hget'⟩ := insertStatics_spec route leaf rest [] rfl hchild'
      obtain ⟨he, hn⟩ := outline_eq_iff.mp
        (hchildren (byte, child) (Assoc.mem_of_get? hchild) child' hlayout.symm)
      rw [hinsert, hinsert', Option.map_some, Option.map_some]
      refine congrArg some (Prod.ext he (funext fun next => ?_))
      dsimp only
      rw [hget, hget']
      split
      next => exact congrArg some hn
      next => exact hstatics next

theorem insertWild_alike {wild wild' : Option (Node α)}
    (hchild : ∀ child, wild = some child → ∀ child' : Node α, child.layout = child'.layout →
      outline (child.insertAt route leaf rest) = outline (child'.insertAt route leaf rest))
    (hwild : wild.map layout = wild'.map layout) :
    (insertWild route leaf rest wild).map outline =
      (insertWild route leaf rest wild').map outline := by
  cases wild with
  | none =>
      rw [Option.map_none, eq_comm, Option.map_eq_none_iff] at hwild
      rw [hwild]
  | some child =>
      rw [Option.map_some, eq_comm, Option.map_eq_some_iff] at hwild
      obtain ⟨child', rfl, hlayout⟩ := hwild
      obtain ⟨hkind, hlabel, -⟩ := layout_eq_iff.mp hlayout
      rw [insertWild, insertWild, hkind, hlabel]
      split
      next =>
        exact congrArg some (outline_conflicting _ _ _ _
          (by rw [layout_bump, layout_bump, hlayout]))
      next => exact congrArg some (hchild child rfl child' hlayout.symm)

end Children

theorem alike_answers {β γ : Type} {f : β → γ} {answer answer' : Option β}
    (hsame : answer.map f = answer'.map f) :
    (answer = none ∧ answer' = none) ∨
      ∃ a a', answer = some a ∧ answer' = some a' ∧ f a = f a' := by
  cases answer <;> cases answer' <;> simp_all

section Descent

variable {route : Pattern} {leaf : Leaf α} {rest : List Mark} {n n' : Node α}

/-- Behind a parameter: at the end of the segment, or at a new one. -/
theorem behindParam_alike (hlayout : n.layout = n'.layout)
    (hchildren : ∀ child ∈ n.suffixes, ∀ child' : Node α, child.layout = child'.layout →
      outline (child.insertAt route leaf rest) = outline (child'.insertAt route leaf rest)) :
    outline (match insertSuffixes route leaf rest n.suffixes with
      | some (e, suffixes) => (e, n.withSuffixes suffixes)
      | none => plantSuffix leaf rest n) =
    outline (match insertSuffixes route leaf rest n'.suffixes with
      | some (e, suffixes) => (e, n'.withSuffixes suffixes)
      | none => plantSuffix leaf rest n') := by
  obtain ⟨-, -, -, -, hsuffixes, -⟩ := layout_eq_iff.mp hlayout
  rcases alike_answers (insertSuffixes_alike route leaf rest hchildren hsuffixes) with
    ⟨hnone, hnone'⟩ | ⟨answer, answer', hinsert, hinsert', hsame⟩
  · rw [hnone, hnone']
    exact plantSuffix_alike leaf rest hlayout
  · obtain ⟨he, hends⟩ := Prod.mk_inj.mp hsame
    rw [hinsert, hinsert']
    exact outline_eq_iff.mpr ⟨he, withSuffixes_alike hlayout hends⟩

/-- At the parameter that is there, or at a new one. -/
theorem atParam_alike (hlayout : n.layout = n'.layout)
    (hchild : ∀ child, n.wild = some child → ∀ child' : Node α, child.layout = child'.layout →
      outline (child.insertAt route leaf rest) = outline (child'.insertAt route leaf rest)) :
    outline (match insertWild route leaf rest n.wild with
      | some (e, wild) => (e, n.withWild wild)
      | none => plantBelow leaf rest n) =
    outline (match insertWild route leaf rest n'.wild with
      | some (e, wild) => (e, n'.withWild wild)
      | none => plantBelow leaf rest n') := by
  obtain ⟨-, -, -, -, -, hwild⟩ := layout_eq_iff.mp hlayout
  rcases alike_answers (insertWild_alike route leaf rest hchild hwild) with
    ⟨hnone, hnone'⟩ | ⟨answer, answer', hinsert, hinsert', hsame⟩
  · rw [hnone, hnone']
    exact plantBelow_alike leaf rest hlayout
  · obtain ⟨he, hsame⟩ := outline_eq_iff.mp hsame
    rw [hinsert, hinsert']
    exact outline_eq_iff.mpr ⟨he, withWild_alike hlayout hsame⟩

/-- At the child that goes on with a byte, or at a new one. -/
theorem atByte_alike (hlayout : n.layout = n'.layout) (byte : UInt8)
    (hchildren : ∀ entry ∈ n.statics, ∀ child' : Node α, entry.2.layout = child'.layout →
      outline (entry.2.insertAt route leaf rest) = outline (child'.insertAt route leaf rest)) :
    outline (match insertStatics route leaf rest byte [] n.statics with
      | some (e, statics) => (e, n.withStatics statics)
      | none => plantBelow leaf rest n) =
    outline (match insertStatics route leaf rest byte [] n'.statics with
      | some (e, statics) => (e, n'.withStatics statics)
      | none => plantBelow leaf rest n') := by
  obtain ⟨-, -, -, hstatics, -, -⟩ := layout_eq_iff.mp hlayout
  rcases alike_answers (insertStatics_alike route leaf rest byte hchildren hstatics) with
    ⟨hnone, hnone'⟩ | ⟨answer, answer', hinsert, hinsert', hsame⟩
  · rw [hnone, hnone']
    exact plantBelow_alike leaf rest hlayout
  · obtain ⟨he, hchanged⟩ := Prod.mk_inj.mp hsame
    rw [hinsert, hinsert']
    exact outline_eq_iff.mpr
      ⟨he, withStatics_alike hlayout fun next => congrFun hchanged next⟩

end Descent

/-- What is seen of an attempt to add a pattern at a node is a matter of its layout. -/
theorem insertAt_alike (route : Pattern) (leaf : Leaf α) (n : Node α) {n' : Node α}
    (rest : List Mark) (hlayout : n.layout = n'.layout) :
    outline (n.insertAt route leaf rest) = outline (n'.insertAt route leaf rest) := by
  induction n using Node.induct generalizing n' rest with
  | node kind priority label held statics suffixes wild hstatic hsuffix hwild =>
      cases n' with
      | node kind' priority' label' held' statics' suffixes' wild' =>
          obtain ⟨hkind, hlabel, hheld, hstatics, hsuffixes, hwilds⟩ := layout_eq_iff.mp hlayout
          simp only [Node.kind, Node.label, Node.leaf, Node.statics, Node.suffixes, Node.wild]
            at hkind hlabel hheld hstatics hsuffixes hwilds
          subst hkind hlabel hheld
          -- The two nodes differ in their counts, and in the order of their children.
          have hbumped : (node kind (priority + 1) label held statics suffixes wild).layout =
              (node kind (priority' + 1) label held statics' suffixes' wild').layout :=
            layout_eq_iff.mpr ⟨rfl, rfl, rfl, hstatics, hsuffixes, hwilds⟩
          rw [insertAt, insertAt]
          split
          next => exact plantBelow_alike leaf _ (cut_alike hbumped _)
          next =>
            split
            next =>
              split
              next => exact outline_conflicting route rest _ _ hbumped
              next => exact outline_congr _ (withLeaf_alike hbumped leaf)
            next next behind _ =>
              split
              next =>
                exact behindParam_alike hbumped fun child hchild _ => hsuffix child hchild _
              next =>
                split
                next => exact atParam_alike hbumped fun child hchild _ => hwild child hchild _
                next =>
                  exact atByte_alike hbumped next.byte
                    fun entry hentry _ => hstatic entry hentry _

theorem insert_alike {n n' : Node α} (hlayout : n.layout = n'.layout) (pattern : String)
    (value : α) :
    outline (n.insert pattern value) = outline (n'.insert pattern value) := by
  obtain ⟨-, hlabel, -⟩ := layout_eq_iff.mp hlayout
  unfold insert
  rw [hlabel, isBare_alike hlayout]
  split
  next => exact outline_congr _ hlayout
  next =>
    dsimp only
    split
    next => exact plant_alike _ _ (by rw [layout_bump, layout_bump, hlayout])
    next => exact insertAt_alike _ _ n _ hlayout

/-! ## Conflicts -/

theorem paramEnd_error {last : UInt8} {count : Nat} {marks : List Mark} {e : InsertError}
    (herror : paramEnd last count marks = .error e) : e = .badParam := by
  fun_induction paramEnd last count marks with
  | case1 => simpa using herror.symm
  | case2 last count m rest hclose hliteral ih => exact ih herror
  | case3 => simpa using herror.symm
  | case4 => simp at herror
  | case5 => simpa using herror.symm
  | case6 last count m rest hclose hother ih => exact ih herror

theorem findParam_error {place : Nat} {marks : List Mark} {e : InsertError}
    (herror : findParam place marks = .error e) : e = .badParam := by
  fun_induction findParam place marks with
  | case1 => simp at herror
  | case2 => simpa using herror.symm
  | case3 => simpa using herror.symm
  | case4 => simpa using herror.symm
  | case5 start m hcloses hopens first behind hname =>
      cases hstop : paramEnd first.byte (start + 2) behind with
      | error e' =>
          rw [hstop] at herror
          rw [← paramEnd_error hstop]
          simpa [Except.map] using herror.symm
      | ok stop => simp [hstop, Except.map] at herror
  | case6 start m rest hcloses hopens ih => exact ih herror

mutual

theorem plant_not_conflict (leaf : Leaf α) (rest : List Mark) (n : Node α) {e : InsertError}
    (he : (plant leaf rest n).1 = some e) : e.isConflict = false := by
  rw [plant] at he
  split at he
  next hfind =>
    rw [Option.some.injEq] at he
    rw [← he, findParam_error hfind]
    rfl
  next => simp at he
  next start stop hfind =>
    dsimp only at he
    have := length_drop_segment_lt (ne_nil_of_findParam hfind) start
    split at he
    next =>
      split at he
      next => simp at he
      next =>
        rw [Option.some.injEq] at he
        rw [← he]
        rfl
    next =>
      split at he
      next =>
        rw [Option.some.injEq] at he
        rw [← he]
        rfl
      next =>
        split at he
        next => exact plantBelow_not_conflict leaf _ _ he
        next => exact plantBelow_not_conflict leaf _ _ he
termination_by 2 * rest.length
decreasing_by all_goals omega

theorem plantBelow_not_conflict (leaf : Leaf α) (rest : List Mark) (n : Node α) {e : InsertError}
    (he : (plantBelow leaf rest n).1 = some e) : e.isConflict = false := by
  match rest with
  | [] =>
      rw [plantBelow] at he
      simp at he
  | m :: behind =>
      rw [plantBelow] at he
      split at he
      next => exact plant_not_conflict leaf (m :: behind) _ he
      next => exact plant_not_conflict leaf (m :: behind) _ he
termination_by 2 * rest.length + 1

end

theorem plantSuffix_not_conflict (leaf : Leaf α) (rest : List Mark) (n : Node α) {e : InsertError}
    (he : (plantSuffix leaf rest n).1 = some e) : e.isConflict = false := by
  unfold plantSuffix at he
  dsimp only at he
  split at he
  next =>
    rw [Option.some.injEq] at he
    rw [← he]
    rfl
  next => exact plantBelow_not_conflict leaf _ _ he

theorem layout_insertSuffixes {route : Pattern} {leaf : Leaf α} {rest : List Mark}
    {suffixes changed : List (Node α)} {e : InsertError}
    (hchildren : ∀ child ∈ suffixes, (child.insertAt route leaf rest).1 = some e →
      (child.insertAt route leaf rest).2.layout = child.layout)
    (hinsert : insertSuffixes route leaf rest suffixes = some (some e, changed)) :
    changed.map layout = suffixes.map layout := by
  induction suffixes generalizing changed with
  | nil => simp [insertSuffixes] at hinsert
  | cons child others ih =>
      rw [List.forall_mem_cons] at hchildren
      rw [insertSuffixes] at hinsert
      split at hinsert
      next =>
        rw [Option.some.injEq, Prod.mk.injEq] at hinsert
        rw [← hinsert.2, List.map_cons, List.map_cons, hchildren.1 hinsert.1]
      next =>
        obtain ⟨⟨e', others'⟩, hothers, hsame⟩ := Option.map_eq_some_iff.mp hinsert
        obtain ⟨rfl, rfl⟩ := Prod.mk.inj hsame
        rw [List.map_cons, List.map_cons, ih hchildren.2 hothers]

theorem layout_insertStatics {route : Pattern} {leaf : Leaf α} {rest : List Mark} {byte : UInt8}
    {statics changed : List (UInt8 × Node α)} {e : InsertError}
    (hchildren : ∀ entry ∈ statics, (entry.2.insertAt route leaf rest).1 = some e →
      (entry.2.insertAt route leaf rest).2.layout = entry.2.layout)
    (hinsert : insertStatics route leaf rest byte [] statics = some (some e, changed))
    (next : UInt8) :
    (Assoc.get? next changed).map layout = (Assoc.get? next statics).map layout := by
  cases hchild : Assoc.get? byte statics with
  | none =>
      rw [insertStatics_eq_none_iff.mpr hchild] at hinsert
      simp at hinsert
  | some child =>
      obtain ⟨changed', hspec, hget⟩ := insertStatics_spec route leaf rest [] rfl hchild
      rw [hspec, Option.some.injEq, Prod.mk.injEq] at hinsert
      obtain ⟨he, rfl⟩ := hinsert
      rw [hget]
      split
      next hnext =>
        rw [← hnext, hchild]
        exact congrArg some (hchildren (byte, child) (Assoc.mem_of_get? hchild) he)
      next => rfl

theorem layout_insertWild {route : Pattern} {leaf : Leaf α} {rest : List Mark}
    {wild : Option (Node α)} {changed : Node α} {e : InsertError}
    (hchild : ∀ child, wild = some child → (child.insertAt route leaf rest).1 = some e →
      (child.insertAt route leaf rest).2.layout = child.layout)
    (hinsert : insertWild route leaf rest wild = some (some e, changed)) :
    some changed.layout = wild.map layout := by
  cases wild with
  | none => simp [insertWild] at hinsert
  | some child =>
      rw [insertWild] at hinsert
      split at hinsert
      next =>
        rw [Option.some.injEq, Prod.mk.injEq] at hinsert
        rw [← hinsert.2, layout_bump]
        rfl
      next =>
        rw [Option.some.injEq] at hinsert
        have hlayout := hchild child rfl (by rw [hinsert])
        rw [hinsert] at hlayout
        exact congrArg some hlayout

/-- A conflict is found before anything is cut or planted. -/
theorem layout_insertAt (route : Pattern) (leaf : Leaf α) (n : Node α) (rest : List Mark)
    {e : InsertError} (hconflict : e.isConflict = true)
    (he : (n.insertAt route leaf rest).1 = some e) :
    (n.insertAt route leaf rest).2.layout = n.layout := by
  -- What is planted is refused for its own parameters only.
  have hplanted : ∀ {attempt : Attempt α}, attempt.1 = some e →
      (∀ e', attempt.1 = some e' → e'.isConflict = false) → False := by
    intro attempt he hplant
    rw [hplant e he] at hconflict
    exact absurd hconflict (by simp)
  induction n using Node.induct generalizing rest with
  | node kind priority label held statics suffixes wild hstatic hsuffix hwild =>
      have hbumped : (node kind (priority + 1) label held statics suffixes wild).layout =
          (node kind priority label held statics suffixes wild).layout :=
        layout_eq_iff.mpr ⟨rfl, rfl, rfl, fun _ => rfl, rfl, rfl⟩
      rw [insertAt] at he ⊢
      split at he
      next => exact (hplanted he fun _ => plantBelow_not_conflict leaf _ _).elim
      next hshared =>
        rw [if_neg hshared]
        split at he
        next =>
          split at he
          next hheld =>
            rw [if_pos hheld]
            exact hbumped
          next => simp at he
        next next behind _ =>
          split at he
          next hkind =>
            rw [if_pos hkind]
            split at he
            next e' ends hinsert =>
              rw [show e' = some e from he] at hinsert
              exact withSuffixes_alike hbumped (layout_insertSuffixes
                (fun child hchild herror => hsuffix child hchild (next :: behind) herror) hinsert)
            next => exact (hplanted he fun _ => plantSuffix_not_conflict leaf _ _).elim
          next hkind =>
            rw [if_neg hkind]
            split at he
            next hopens =>
              rw [if_pos hopens]
              split at he
              next e' child hinsert =>
                rw [show e' = some e from he] at hinsert
                exact layout_eq_iff.mpr ⟨rfl, rfl, rfl, fun _ => rfl, rfl, layout_insertWild
                  (fun child hchild herror => hwild child hchild (next :: behind) herror) hinsert⟩
              next => exact (hplanted he fun _ => plantBelow_not_conflict leaf _ _).elim
            next hopens =>
              rw [if_neg hopens]
              split at he
              next e' children hinsert =>
                rw [show e' = some e from he] at hinsert
                exact withStatics_alike hbumped (layout_insertStatics
                  (fun entry hentry herror => hstatic entry hentry (next :: behind) herror) hinsert)
              next => exact (hplanted he fun _ => plantBelow_not_conflict leaf _ _).elim

/-- An attempt that ends in a conflict leaves the layout of the tree as it was. -/
theorem layout_insert_of_conflict {n : Node α} {pattern : String} {value : α} {e : InsertError}
    (he : (n.insert pattern value).1 = some e) (hconflict : e.isConflict = true) :
    (n.insert pattern value).2.layout = n.layout := by
  unfold insert at he ⊢
  split at he
  next => rfl
  next route names _ =>
    dsimp only at he ⊢
    split at he
    next =>
      rw [plant_not_conflict _ _ _ he] at hconflict
      exact absurd hconflict (by simp)
    next hroot =>
      rw [if_neg hroot]
      exact layout_insertAt route ⟨value, names⟩ n route.marks hconflict he

/-- A pattern whose parameters are malformed is refused before the tree is looked at. -/
theorem insert_of_malformed {n : Node α} {pattern : String} {value : α} {reason : InsertError}
    (hreason : (Pattern.ofString pattern).normalize = .error reason) :
    n.insert pattern value = (some reason, n) := by
  rw [insert, hreason]

/-- A refused attempt keeps what the tree holds, unless the tree is a bare root with a leaf. -/
theorem holds_insert_of_refused {n : Node α} {pattern : String} {value : α}
    (hrefused : (n.insert pattern value).1 ≠ none)
    (hroot : n.label = [] → n.isBare = true → n.leaf = none) (marks : List Mark) (l : Leaf α) :
    (n.insert pattern value).2.Holds marks l ↔ n.Holds marks l := by
  match hroute : (Pattern.ofString pattern).normalize with
  | .error reason => rw [insert_of_malformed hroute]
  | .ok (route, names) =>
      obtain ⟨spot, hadds, -⟩ := insert_addsNear hroute hroot
      exact (hadds marks l).trans (or_iff_left fun hnew => hrefused hnew.1)

/-! ## Matching -/

theorem searchStatics_eq (statics : List (UInt8 × Node α)) (path : Bytes) (taken : List Bytes) :
    searchStatics statics path taken = path.head?.bind fun byte =>
      (Assoc.get? byte statics).bind fun child => child.search path taken := by
  induction statics with
  | nil => cases path.head? <;> rfl
  | cons entry others ih =>
      rw [searchStatics, ih]
      cases path.head? with
      | none => simp
      | some byte =>
          simp only [Option.bind_some, Option.some.injEq, Assoc.get?, eq_comm (a := byte)]
          split <;> rfl

theorem searchSuffixes_alike {suffixes suffixes' : List (Node α)}
    (hchildren : ∀ child ∈ suffixes, ∀ child' : Node α, child.layout = child'.layout →
      child.search = child'.search)
    (hsuffixes : suffixes.map layout = suffixes'.map layout) (path : Bytes) (width : Nat)
    (taken : List Bytes) :
    searchSuffixes suffixes path width taken = searchSuffixes suffixes' path width taken := by
  induction suffixes generalizing suffixes' with
  | nil =>
      rw [List.map_nil, eq_comm, List.map_eq_nil_iff] at hsuffixes
      rw [hsuffixes]
  | cons child others ih =>
      cases suffixes' with
      | nil => simp at hsuffixes
      | cons child' others' =>
          rw [List.map_cons, List.map_cons, List.cons.injEq] at hsuffixes
          obtain ⟨hlayout, hothers⟩ := hsuffixes
          rw [List.forall_mem_cons] at hchildren
          obtain ⟨-, hlabel, -⟩ := layout_eq_iff.mp hlayout
          rw [searchSuffixes, searchSuffixes, ← hlabel, hchildren.1 child' hlayout,
            ih hchildren.2 hothers]

/-- Trees of one layout match paths alike. -/
theorem search_alike (n : Node α) {n' : Node α} (hlayout : n.layout = n'.layout) :
    n.search = n'.search ∧ searchWild (some n) = searchWild (some n') := by
  -- A parameter is matched together with the ends behind it, so the induction carries both.
  induction n using Node.induct generalizing n' with
  | node kind priority label leaf statics suffixes wild hstatic hsuffix hwild =>
      cases n' with
      | node kind' priority' label' leaf' statics' suffixes' wild' =>
          obtain ⟨hkind, hlabel, hleaf, hstatics, hsuffixes, hwilds⟩ := layout_eq_iff.mp hlayout
          simp only [Node.kind, Node.label, Node.leaf, Node.statics, Node.suffixes, Node.wild]
            at hkind hlabel hleaf hstatics hsuffixes hwilds
          subst hkind hlabel hleaf
          constructor
          · have hbelow : searchStatics statics = searchStatics statics' := by
              funext path taken
              rw [searchStatics_eq, searchStatics_eq]
              refine Option.bind_congr fun byte _ => ?_
              rcases alike_answers (hstatics byte) with
                ⟨hnone, hnone'⟩ | ⟨child, child', hchild, hchild', hsame⟩
              · rw [hnone, hnone']
              · rw [hchild, hchild']
                have hmem := Assoc.mem_of_get? hchild
                exact congrFun (congrFun (hstatic (byte, child) hmem hsame).1 path) taken
            have haside : searchWild wild = searchWild wild' := by
              rcases alike_answers hwilds with
                ⟨rfl, rfl⟩ | ⟨child, child', rfl, rfl, hsame⟩
              · rfl
              · exact (hwild child rfl hsame).2
            funext path taken
            rw [search, search, hbelow, haside]
          · have hends := searchSuffixes_alike
              (fun child hchild _ hsame => (hsuffix child hchild hsame).1) hsuffixes
            funext path taken
            rw [searchWild.eq_def, searchWild.eq_def]
            simp only [hends]

theorem lookup_alike {n n' : Node α} (hlayout : n.layout = n'.layout) (path : String) :
    n.lookup path = n'.lookup path := by
  rw [lookup, lookup, (search_alike n hlayout).1]

end Node
end WebApp
